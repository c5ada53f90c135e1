import CliCompletion.Proofs.Spellings

namespace CliCompletion.Quoted

variable {c b quote : Char} {size : Nat} {marks s : List Char}

def isBrace (c : Char) : Bool :=
  c == '{' || c == '}'

inductive Piece (quote : Char) where
  | plain (c : Char) (hc : c ≠ '\\' ∧ c ≠ quote ∧ isBrace c = false)
  | doubled (b : Char) (hb : isBrace b = true)
  | escaped (c : Char) (spelling : List Char) (h : Escape c spelling)

namespace Piece

def text : Piece quote → List Char
  | plain c _ => [c]
  | doubled b _ => [b, b]
  | escaped _ spelling _ => spelling

def value : Piece quote → Char
  | plain c _ => c
  | doubled b _ => b
  | escaped c _ _ => c

def read : Piece quote → List Char
  | plain c _ => [c]
  | doubled b _ => [b, b]
  | escaped c _ _ => [c]

def Doubles (b : Char) : Piece quote → Prop
  | doubled c _ => c = b
  | _ => False

def Names (c : Char) : Piece quote → Prop
  | escaped d _ _ => d = c
  | _ => False

end Piece

variable {p : Piece quote} {ps : List (Piece quote)} {unpaired : Option Char}

section Collapse

def collapse : List Char → List Char
  | c :: d :: s => if isBrace c ∧ c = d then c :: collapse s else c :: collapse (d :: s)
  | s => s

theorem single_cons (h : ¬ (c = b ∧ s.head? = some b)) :
    single b (c :: s) = c :: single b s := by
  cases s with
  | nil => rfl
  | cons d s =>
      rw [single, if_neg]
      simpa using h

theorem head?_single (b : Char) (s : List Char) : (single b s).head? = s.head? := by
  fun_cases single b s with
  | case1 c d s h => rw [h.1, List.head?_cons, List.head?_cons]
  | case2 c d s h => rw [List.head?_cons, List.head?_cons]
  | case3 s h => rfl

theorem isBrace_iff : isBrace c = true ↔ c = '{' ∨ c = '}' := by
  simp [isBrace]

theorem singleBraces_eq_collapse (s : List Char) : singleBraces s = collapse s := by
  fun_induction collapse s with
  | case1 c d s h ih =>
      obtain ⟨hb, rfl⟩ := h
      rw [← ih]
      rcases isBrace_iff.1 hb with rfl | rfl
      · rw [singleBraces, single, if_pos ⟨rfl, rfl⟩, single_cons (by simp)]
        rfl
      · rw [singleBraces, single_cons (b := '{') (by simp), single_cons (b := '{') (by simp),
          single, if_pos ⟨rfl, rfl⟩]
        rfl
  | case2 c d s h ih =>
      have hfirst : ¬ (c = '{' ∧ (d :: s).head? = some '{') := by
        rintro ⟨rfl, hd⟩
        exact h ⟨rfl, (Option.some.inj hd).symm⟩
      have hsecond : ¬ (c = '}' ∧ (single '{' (d :: s)).head? = some '}') := by
        rintro ⟨rfl, hd⟩
        rw [head?_single] at hd
        exact h ⟨rfl, (Option.some.inj hd).symm⟩
      rw [← ih, singleBraces, single_cons hfirst, single_cons hsecond]
      rfl
  | case3 s h =>
      match s, h with
      | [], _ => rfl
      | [c], _ => rfl
      | c :: d :: s, h => exact (h c d s rfl).elim

theorem collapse_pair (hb : isBrace c = true) : collapse (c :: c :: s) = c :: collapse s := by
  rw [collapse, if_pos ⟨hb, rfl⟩]

theorem collapse_cons (h : isBrace c = false ∨ s.head? ≠ some c) :
    collapse (c :: s) = c :: collapse s := by
  cases s with
  | nil => rfl
  | cons d s =>
      rw [collapse, if_neg]
      rintro ⟨hb, rfl⟩
      simp [hb] at h

end Collapse

section Kept

-- The values that are left of the pieces. `unpaired` is the brace that an escape before them has
-- named, while that brace is still to find a partner.
def kept : Option Char → List (Piece quote) → List Char
  | _, [] => []
  | _, .plain c _ :: ps => c :: kept none ps
  | unpaired, .doubled b _ :: ps =>
      b :: kept (if unpaired = some b then unpaired else none) ps
  | unpaired, .escaped c _ _ :: ps =>
      if unpaired = some c then kept none ps
      else c :: kept (if isBrace c then some c else none) ps

theorem head?_read (p : Piece quote) (s : List Char) : (p.read ++ s).head? = some p.value := by
  cases p <;> rfl

theorem kept_of_value_ne (h : p.value ≠ b) : kept (some b) (p :: ps) = kept none (p :: ps) := by
  have hne : some b ≠ some p.value := fun hb => h (Option.some.inj hb).symm
  cases p with
  | plain c _ => rfl
  | doubled d _ =>
      have hd : some b ≠ some d := hne
      simp [kept, hd]
  | escaped c _ _ =>
      have hc : some b ≠ some c := hne
      simp [kept, hc]

section Step

variable (hnone : collapse s = kept none ps)
  (hsome : ∀ b, isBrace b = true → collapse (b :: s) = b :: kept (some b) ps)

include hnone hsome

theorem collapse_read_append (p : Piece quote) : collapse (p.read ++ s) = kept none (p :: ps) := by
  cases p with
  | plain c hc =>
      rw [Piece.read, List.singleton_append, collapse_cons (.inl hc.2.2), hnone, kept]
  | doubled b hb =>
      rw [Piece.read, List.cons_append, List.singleton_append, collapse_pair hb, hnone]
      simp [kept]
  | escaped c _ _ =>
      rw [Piece.read, List.singleton_append]
      by_cases hb : isBrace c = true
      · simp [hsome c hb, kept, hb]
      · rw [collapse_cons (.inl (by simpa using hb)), hnone]
        simp [kept, hb]

theorem collapse_unpaired_append (hb : isBrace b = true) (p : Piece quote) :
    collapse (b :: (p.read ++ s)) = b :: kept (some b) (p :: ps) := by
  by_cases hv : p.value = b
  · cases p with
    | plain c hc =>
        have hc' : isBrace b = false := hv ▸ hc.2.2
        exact absurd hb (by simp [hc'])
    | doubled d _ =>
        obtain rfl : d = b := hv
        simp [Piece.read, collapse_pair hb, hsome d hb, kept]
    | escaped c _ _ =>
        obtain rfl : c = b := hv
        simp [Piece.read, collapse_pair hb, hnone, kept]
  · have hhead : (p.read ++ s).head? ≠ some b := by
      rw [head?_read]
      exact fun h => hv (Option.some.inj h)
    rw [collapse_cons (.inr hhead), collapse_read_append hnone hsome, kept_of_value_ne hv]

end Step

theorem collapse_read (ps : List (Piece quote)) :
    collapse (ps.flatMap Piece.read) = kept none ps ∧
      ∀ b, isBrace b = true → collapse (b :: ps.flatMap Piece.read) = b :: kept (some b) ps := by
  induction ps with
  | nil => exact ⟨rfl, fun _ _ => rfl⟩
  | cons p ps ih =>
      obtain ⟨hnone, hsome⟩ := ih
      rw [List.flatMap_cons]
      exact ⟨collapse_read_append hnone hsome p, fun b hb =>
        collapse_unpaired_append hnone hsome hb p⟩

theorem kept_sublist (unpaired : Option Char) (ps : List (Piece quote)) :
    (kept unpaired ps).Sublist (ps.map Piece.value) := by
  fun_induction kept unpaired ps with
  | case1 => exact .slnil
  | case2 _ _ _ _ ih => exact .cons_cons _ ih
  | case3 _ _ _ _ ih => exact .cons_cons _ ih
  | case4 _ _ _ _ ih => exact .cons _ ih
  | case5 _ _ _ _ _ _ ih => exact .cons_cons _ ih

end Kept

section Pairs

def PairsWith (b : Char) (ps : List (Piece quote)) : Prop :=
  ∃ between last after, ps = between ++ last :: after ∧ (∀ p ∈ between, p.Doubles b) ∧
    last.Names b

def EscapesPair (ps : List (Piece quote)) : Prop :=
  ∃ b before first after, isBrace b = true ∧ ps = before ++ first :: after ∧ first.Names b ∧
    PairsWith b after

theorem not_pairsWith_nil : ¬ PairsWith b ([] : List (Piece quote)) := by
  rintro ⟨between, last, after, h, -⟩
  simp at h

theorem pairsWith_cons : PairsWith b (p :: ps) ↔ p.Names b ∨ p.Doubles b ∧ PairsWith b ps := by
  constructor
  · rintro ⟨between, last, after, h, hd, hn⟩
    cases between with
    | nil =>
        cases h
        exact .inl hn
    | cons q between =>
        cases h
        exact .inr ⟨hd p (List.mem_cons_self ..), between, last, after, rfl,
          fun q hq => hd q (List.mem_cons_of_mem _ hq), hn⟩
  · rintro (hn | ⟨hp, between, last, after, rfl, hd, hn⟩)
    · exact ⟨[], p, ps, rfl, by simp, hn⟩
    · exact ⟨p :: between, last, after, rfl, by simpa using ⟨hp, hd⟩, hn⟩

theorem not_escapesPair_nil : ¬ EscapesPair ([] : List (Piece quote)) := by
  rintro ⟨b, before, first, after, -, h, -⟩
  simp at h

theorem escapesPair_cons : EscapesPair (p :: ps) ↔
    (∃ b, isBrace b = true ∧ p.Names b ∧ PairsWith b ps) ∨ EscapesPair ps := by
  constructor
  · rintro ⟨b, before, first, after, hb, h, hn, hp⟩
    cases before with
    | nil =>
        cases h
        exact .inl ⟨b, hb, hn, hp⟩
    | cons q before =>
        cases h
        exact .inr ⟨b, before, first, after, hb, rfl, hn, hp⟩
  · rintro (⟨b, hb, hn, hp⟩ | ⟨b, before, first, after, hb, rfl, hn, hp⟩)
    · exact ⟨b, [], p, ps, hb, rfl, hn, hp⟩
    · exact ⟨b, p :: before, first, after, hb, rfl, hn, hp⟩

theorem kept_eq_map_iff (unpaired : Option Char) (ps : List (Piece quote)) :
    kept unpaired ps = ps.map Piece.value ↔
      ¬ ((∃ b ∈ unpaired, PairsWith b ps) ∨ EscapesPair ps) := by
  fun_induction kept unpaired ps with
  | case1 unpaired => simp [not_pairsWith_nil, not_escapesPair_nil]
  | case2 unpaired c hc ps ih =>
      simp [Piece.value, ih, pairsWith_cons, escapesPair_cons, Piece.Names, Piece.Doubles]
  | case3 unpaired d hd ps ih =>
      rw [List.map_cons, Piece.value, List.cons.injEq, and_iff_right rfl, ih, not_congr]
      refine or_congr ?_ (by simp [escapesPair_cons, Piece.Names])
      by_cases hu : unpaired = some d
      · simp [hu, pairsWith_cons, Piece.Names, Piece.Doubles]
      · simp [hu, pairsWith_cons, Piece.Names, Piece.Doubles]
  | case4 c spelling h ps ih =>
      have hle := (kept_sublist none ps).length_le
      have hne : kept none ps ≠ (Piece.escaped c spelling h :: ps).map Piece.value := by
        intro heq
        rw [heq, List.map_cons, List.length_cons] at hle
        exact Nat.not_succ_le_self _ hle
      have hpair : PairsWith c (Piece.escaped c spelling h :: ps) := pairsWith_cons.2 (.inl rfl)
      rw [iff_false_left hne, not_not]
      exact .inl ⟨c, rfl, hpair⟩
  | case5 unpaired c spelling h ps hne ih =>
      rw [List.map_cons, Piece.value, List.cons.injEq, and_iff_right rfl, ih, not_congr]
      simp [pairsWith_cons, escapesPair_cons, Piece.Names, Piece.Doubles, hne]

end Pairs

section Literals

theorem unescape_pieces (ps : List (Piece quote)) :
    unescape false (ps.flatMap Piece.text) = some (ps.flatMap Piece.read) := by
  induction ps with
  | nil => rw [List.flatMap_nil, unescape, List.flatMap_nil]
  | cons p ps ih =>
      rw [List.flatMap_cons, List.flatMap_cons]
      cases p with
      | plain c hc =>
          rw [Piece.text, List.singleton_append, unescape_plain hc.1, ih]
          rfl
      | doubled b hb =>
          have hne : b ≠ '\\' := by rcases isBrace_iff.1 hb with rfl | rfl <;> decide
          rw [Piece.text, List.cons_append, List.singleton_append, unescape_plain hne,
            unescape_plain hne, ih]
          rfl
      | escaped c spelling h =>
          rw [Piece.text, unescape_escape h, ih]
          rfl

theorem head?_flatMap_text (hq : isQuote quote = true) (ps : List (Piece quote)) :
    (ps.flatMap Piece.text).head? ≠ some quote := by
  cases ps with
  | nil => simp
  | cons p ps =>
      rw [List.flatMap_cons]
      cases p with
      | plain c hc => simpa [Piece.text] using hc.2.1
      | doubled b hb =>
          have hne : b ≠ quote := by
            rcases isBrace_iff.1 hb with rfl | rfl <;> rcases isQuote_iff.1 hq with rfl | rfl <;>
              decide
          simpa [Piece.text] using hne
      | escaped c spelling h =>
          rw [Piece.text, List.head?_append, h.head?_eq]
          exact fun he => ne_backslash_of_isQuote hq (Option.some.inj he).symm

theorem ofMarks_formatted (hm : marks ∈ [['f'], ['F']]) :
    (∀ c ∈ marks, isMark c = true) ∧ Style.ofMarks marks = ⟨false, false, true⟩ := by
  simp only [List.mem_cons, List.not_mem_nil, or_false] at hm
  rcases hm with rfl | rfl <;> simp [isMark_iff, Style.ofMarks]

theorem decode_pieces (hm : marks ∈ [['f'], ['F']]) (hq : isQuote quote = true)
    (hsize : size = 1 ∨ size = 3) (ps : List (Piece quote)) :
    decode (literal marks quote size (ps.flatMap Piece.text)) = some (kept none ps) := by
  obtain ⟨hmarks, hstyle⟩ := ofMarks_formatted hm
  have hread : collapse (ps.flatMap Piece.read) = kept none ps := (collapse_read ps).1
  rw [decode_literal hmarks hq hsize (head?_flatMap_text hq ps), hstyle]
  simp [decodeBody, unescape_pieces, singleBraces_eq_collapse, hread]

theorem decode_pieces_iff (hm : marks ∈ [['f'], ['F']]) (hq : quote ∈ ['"', '\''])
    (hsize : size ∈ [1, 3]) (ps : List (Piece quote)) :
    (decode (literal marks quote size (ps.flatMap Piece.text)) = some (ps.map Piece.value) ↔
      ¬ EscapesPair ps) ∧
    ∃ s, decode (literal marks quote size (ps.flatMap Piece.text)) = some s ∧
      s.Sublist (ps.map Piece.value) := by
  have hdecode := decode_pieces hm (isQuote_iff.2 (by simpa using hq)) (by simpa using hsize) ps
  refine ⟨?_, _, hdecode, kept_sublist none ps⟩
  rw [hdecode, Option.some.injEq, kept_eq_map_iff]
  simp

theorem escape_leftBrace : Escape '{' ['\\', 'x', '7', 'b'] :=
  .hex (e := 'x') (by decide) rfl ⟨[7, 11], by decide, by decide⟩

theorem escape_rightBrace : Escape '}' ['\\', '1', '7', '5'] :=
  .octal rfl ⟨[1, 7, 5], by decide, by decide⟩

def separateEscapes : List (Piece '"') :=
  [.doubled '{' rfl, .escaped '{' _ escape_leftBrace, .escaped '}' _ escape_rightBrace,
    .doubled '}' rfl, .plain 'x' (by decide), .escaped '{' _ escape_leftBrace]

theorem decode_separateEscapes : ¬ EscapesPair separateEscapes ∧
    decode (literal ['F'] '"' 3 (separateEscapes.flatMap Piece.text)) =
      some ['{', '{', '}', '}', 'x', '{'] := by
  have hread : decode (literal ['F'] '"' 3 (separateEscapes.flatMap Piece.text)) =
      some (separateEscapes.map Piece.value) := by decide +kernel
  have hm : ['F'] ∈ [['f'], ['F']] := by decide
  have hsize : 3 ∈ [1, 3] := by decide
  exact ⟨(decode_pieces_iff hm (by decide) hsize separateEscapes).1.1 hread, hread⟩

theorem brace_lost_of_adjacent_escapes : ¬ ∀ ps : List (Piece '"'),
    decode (literal ['f'] '"' 1 (ps.flatMap Piece.text)) = some (ps.map Piece.value) := by
  intro h
  have hread : decode (literal ['f'] '"' 1 ['\\', 'x', '7', 'b', '\\', 'x', '7', 'b']) =
      some ['{'] := by decide +kernel
  have hall := h [.escaped '{' _ escape_leftBrace, .escaped '{' _ escape_leftBrace]
  cases hread.symm.trans hall

end Literals

end CliCompletion.Quoted
