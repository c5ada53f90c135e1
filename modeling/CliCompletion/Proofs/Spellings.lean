import CliCompletion.Literal.Quoted
import CliCompletion.Proofs.Positional
import Mathlib.Tactic.SplitIfs

namespace CliCompletion.Quoted

variable {c quote : Char} {n size : Nat} {marks piece rest s body : List Char} {bytes : Bool}

def named : List (Char × Char) :=
  [('\\', '\\'), ('\'', '\''), ('"', '"'), ('a', '\x07'), ('b', '\x08'), ('f', '\x0c'),
    ('n', '\n'), ('r', '\r'), ('t', '\t'), ('v', '\x0b')]

def numbered : List (Char × Nat) :=
  [('x', 2), ('u', 4), ('U', 8)]

inductive Escape : Char → List Char → Prop
  | named {e c : Char} (h : (e, c) ∈ named) : Escape c ['\\', e]
  | octal {c : Char} {ds : List Char} (hlen : ds.length = 3) (h : Text.Writes 8 ds c.toNat) :
      Escape c ('\\' :: ds)
  | hex {e c : Char} {count : Nat} {ds : List Char} (he : (e, count) ∈ numbered)
      (hlen : ds.length = count) (h : Text.Writes 16 ds c.toNat) : Escape c ('\\' :: e :: ds)

inductive Spelling (quote : Char) : Char → List Char → Prop
  | itself {c : Char} (hb : c ≠ '\\') (hq : c ≠ quote) : Spelling quote c [c]
  | escape {c : Char} {piece : List Char} (h : Escape c piece) : Spelling quote c piece

inductive Spells (quote : Char) : List Char → List Char → Prop
  | nil : Spells quote [] []
  | char {c : Char} {piece s body : List Char} (hc : Spelling quote c piece)
      (h : Spells quote s body) : Spells quote (c :: s) (piece ++ body)
  | continued {s body : List Char} (h : Spells quote s body) :
      Spells quote s ('\\' :: '\n' :: body)

def literal (marks : List Char) (quote : Char) (size : Nat) (body : List Char) : List Char :=
  marks ++ (List.replicate size quote ++ (body ++ List.replicate size quote))

section Unescape

theorem unescape_plain (hc : c ≠ '\\') :
    unescape bytes (c :: s) = (unescape bytes s).map (c :: ·) := by
  rw [unescape]
  simp [hc]

theorem unescape_backslash (h : escape bytes s = some (piece, rest)) :
    unescape bytes ('\\' :: s) = (unescape bytes rest).map (piece ++ ·) := by
  rw [unescape]
  simp only [if_true]
  split
  · rename_i h'
    rw [h] at h'
    cases h'
  · rename_i h'
    rw [h] at h'
    cases h'
    rfl

theorem octal_of_forall₂ {cs : List Char} {ds : List Nat}
    (h : List.Forall₂ (Text.IsDigit 8) cs ds) (n : Nat) (rest : List Char) :
    octal cs.length n (cs ++ rest) = (ds.foldl (fun n d => 8 * n + d) n, rest) := by
  induction h generalizing n with
  | nil => rfl
  | cons hd _ ih =>
      rw [List.length_cons, List.cons_append, octal, hd.octalDigit, List.foldl_cons]
      exact ih _

theorem octal_of_writes {ds : List Char} (h : Text.Writes 8 ds n) (rest : List Char) :
    octal ds.length 0 (ds ++ rest) = (n, rest) := by
  obtain ⟨vs, hvs, rfl⟩ := h
  rw [octal_of_forall₂ hvs, Text.ofDigits_reverse]

theorem coded_toNat (c : Char) : coded false c.toNat = some c := by
  simp [coded, Text.scalar_eq_some.2 rfl]

theorem hexEscape_of_writes {ds : List Char} (h : Text.Writes 16 ds c.toNat) (rest : List Char) :
    hexEscape ds.length false (ds ++ rest) = some ([c], rest) := by
  simp [hexEscape, h.hex, coded_toNat]

theorem escape_named {e : Char} (h : (e, c) ∈ named) (rest : List Char) :
    escape bytes (e :: rest) = some ([c], rest) := by
  simp only [named, List.mem_cons, List.not_mem_nil, or_false, Prod.mk.injEq] at h
  rcases h with ⟨rfl, rfl⟩ | ⟨rfl, rfl⟩ | ⟨rfl, rfl⟩ | ⟨rfl, rfl⟩ | ⟨rfl, rfl⟩ | ⟨rfl, rfl⟩ |
    ⟨rfl, rfl⟩ | ⟨rfl, rfl⟩ | ⟨rfl, rfl⟩ | ⟨rfl, rfl⟩ <;> rfl

theorem escape_octal {ds : List Char} (hlen : ds.length = 3) (h : Text.Writes 8 ds c.toNat)
    (rest : List Char) : escape false (ds ++ rest) = some ([c], rest) := by
  have hread := octal_of_writes h rest
  obtain ⟨vs, hvs, -⟩ := h
  cases hvs with
  | nil => cases hlen
  | @cons d v ds vs hd _ =>
      have hfirst : d ≠ '\n' ∧ simple d = none :=
        hd.holds (P := fun d _ => d ≠ '\n' ∧ simple d = none) (by decide)
      rw [hlen, List.cons_append, octal, hd.octalDigit] at hread
      simp only [Nat.mul_zero, Nat.zero_add] at hread
      simp [escape, hfirst, hd.octalDigit, hread, coded_toNat]

theorem escape_hex {e : Char} {count : Nat} {ds : List Char} (he : (e, count) ∈ numbered)
    (hlen : ds.length = count) (h : Text.Writes 16 ds c.toNat) (rest : List Char) :
    escape false (e :: (ds ++ rest)) = some ([c], rest) := by
  have hread := hexEscape_of_writes h rest
  rw [hlen] at hread
  simp only [numbered, List.mem_cons, List.not_mem_nil, or_false, Prod.mk.injEq] at he
  rcases he with ⟨rfl, rfl⟩ | ⟨rfl, rfl⟩ | ⟨rfl, rfl⟩ <;>
    simpa [escape, simple, Text.octalDigit] using hread

theorem unescape_escape (h : Escape c piece) (s : List Char) :
    unescape false (piece ++ s) = (unescape false s).map (c :: ·) := by
  cases h with
  | named he => exact unescape_backslash (escape_named he s)
  | octal hlen hds => exact unescape_backslash (escape_octal hlen hds s)
  | hex he hlen hds => exact unescape_backslash (escape_hex he hlen hds s)

theorem unescape_continued : unescape bytes ('\\' :: '\n' :: s) = unescape bytes s := by
  have hbreak : escape bytes ('\n' :: s) = some ([], s) := by simp [escape]
  simp [unescape_backslash hbreak]

theorem Spells.unescape_eq (h : Spells quote s body) : unescape false body = some s := by
  induction h with
  | nil => rw [unescape]
  | char hc _ ih =>
      cases hc with
      | itself hb _ => rw [List.singleton_append, unescape_plain hb, ih, Option.map_some]
      | escape he => rw [unescape_escape he, ih, Option.map_some]
  | continued _ ih => rw [unescape_continued, ih]

end Unescape

section Delimiters

theorem isQuote_iff : isQuote c = true ↔ c = '"' ∨ c = '\'' := by
  simp [isQuote]

theorem isMark_iff : isMark c = true ↔ c ∈ ['r', 'R', 'b', 'B', 'u', 'U', 'f', 'F'] := by
  simp [isMark]

theorem not_isQuote_of_isMark (h : isMark c = true) : isQuote c = false := by
  simp only [isMark_iff, List.mem_cons, List.not_mem_nil, or_false] at h
  rcases h with rfl | rfl | rfl | rfl | rfl | rfl | rfl | rfl <;> rfl

theorem delimiter_literal (hq : isQuote quote = true) (hsize : size = 1 ∨ size = 3)
    (hb : body.head? ≠ some quote) :
    delimiter (List.replicate size quote ++ (body ++ List.replicate size quote)) =
      some (List.replicate size quote) := by
  rcases hsize with rfl | rfl
  · match body, hb with
    | [], _ => simp [delimiter, hq]
    | [b], hb => simp_all [delimiter]
    | b :: d :: body, hb => simp_all [delimiter]
  · simp [delimiter, hq]

theorem between_literal (hq : isQuote quote = true) (hsize : size = 1 ∨ size = 3)
    (hb : body.head? ≠ some quote) :
    between (List.replicate size quote ++ (body ++ List.replicate size quote)) = some body := by
  have hsuffix : List.replicate size quote <:+
      List.replicate size quote ++ (body ++ List.replicate size quote) :=
    (List.suffix_append _ _).trans (List.suffix_append _ _)
  simp only [between, delimiter_literal hq hsize hb, Option.bind_eq_bind, Option.bind_some,
    List.length_replicate, List.length_append]
  rw [if_neg (by simp [hsuffix]; omega), List.drop_left' List.length_replicate,
    List.take_left' (by omega)]

theorem decode_literal (hm : ∀ c ∈ marks, isMark c = true) (hq : isQuote quote = true)
    (hsize : size = 1 ∨ size = 3) (hb : body.head? ≠ some quote) :
    decode (literal marks quote size body) = decodeBody (.ofMarks marks) body := by
  have hno : ∀ c ∈ marks, (!isQuote c) = true := fun c hc => by
    rw [not_isQuote_of_isMark (hm c hc), Bool.not_false]
  have hpos : ∃ k, size = k + 1 := ⟨size - 1, by omega⟩
  obtain ⟨k, hk⟩ := hpos
  have hstart (r : List Char) : List.replicate size quote ++ r =
      quote :: (List.replicate k quote ++ r) := by
    rw [hk, List.replicate_succ, List.cons_append]
  rw [decode, literal, List.takeWhile_append_of_pos hno, List.dropWhile_append_of_pos hno]
  rw [hstart, List.takeWhile_cons_of_neg (by simp [hq]), List.dropWhile_cons_of_neg (by simp [hq]),
    ← hstart, List.append_nil, between_literal hq hsize hb, if_neg]
  · rfl
  · simpa using hm

end Delimiters

theorem Escape.head?_eq (h : Escape c piece) : piece.head? = some '\\' := by
  cases h <;> rfl

theorem ne_backslash_of_isQuote (hq : isQuote quote = true) : quote ≠ '\\' := by
  rcases isQuote_iff.1 hq with rfl | rfl <;> decide

theorem Spells.head?_ne (h : Spells quote s body) (hq : isQuote quote = true) :
    body.head? ≠ some quote := by
  have hne : some '\\' ≠ some quote := fun he =>
    ne_backslash_of_isQuote hq (Option.some.inj he).symm
  cases h with
  | nil => simp
  | char hc _ =>
      cases hc with
      | itself _ hne => simpa using hne
      | escape he =>
          rw [List.head?_append, he.head?_eq]
          exact hne
  | continued _ => exact hne

theorem exists_spells (hq : isQuote quote = true) (s : List Char) :
    ∃ body, Spells quote s body := by
  induction s with
  | nil => exact ⟨[], .nil⟩
  | cons c s ih =>
      obtain ⟨body, hb⟩ := ih
      by_cases hc : c = '\\'
      · subst hc
        exact ⟨_, .char (.escape (.named (e := '\\') (by decide))) hb⟩
      · by_cases hcq : c = quote
        · subst hcq
          refine ⟨_, .char (.escape (.named (e := c) ?_)) hb⟩
          rcases isQuote_iff.1 hq with rfl | rfl <;> decide
        · exact ⟨_, .char (.itself hc hcq) hb⟩

theorem ofMarks_plain (hm : marks ∈ [[], ['u'], ['U']]) :
    (∀ c ∈ marks, isMark c = true) ∧ Style.ofMarks marks = ⟨false, false, false⟩ := by
  simp only [List.mem_cons, List.not_mem_nil, or_false] at hm
  rcases hm with rfl | rfl | rfl <;> simp [isMark_iff, Style.ofMarks]

theorem decode_spelled (hm : marks ∈ [[], ['u'], ['U']]) (hq : quote ∈ ['"', '\''])
    (hsize : size ∈ [1, 3]) (s : List Char) :
    (∃ body, Spells quote s body) ∧
      ∀ body, Spells quote s body → decode (literal marks quote size body) = some s := by
  have hquote : isQuote quote = true := isQuote_iff.2 (by simpa using hq)
  refine ⟨exists_spells hquote s, fun body h => ?_⟩
  obtain ⟨hmarks, hstyle⟩ := ofMarks_plain hm
  rw [decode_literal hmarks hquote (by simpa using hsize) (h.head?_ne hquote), hstyle]
  simp [decodeBody, h.unescape_eq]

def mixedText : List Char :=
  "é'A7\n".toList

def mixedBody : List Char :=
  "\\351\\\n\\u0027\\x417\\x0A\\\n".toList

theorem decode_spelled_mixed : Spells '\'' mixedText mixedBody ∧
    decode (literal ['U'] '\'' 3 mixedBody) = some mixedText := by
  have he : Text.Writes 8 ['3', '5', '1'] 'é'.toNat := ⟨[3, 5, 1], by decide, by decide⟩
  have hquote : Text.Writes 16 ['0', '0', '2', '7'] '\''.toNat :=
    ⟨[0, 0, 2, 7], by decide, by decide⟩
  have hA : Text.Writes 16 ['4', '1'] 'A'.toNat := ⟨[4, 1], by decide, by decide⟩
  have hline : Text.Writes 16 ['0', 'A'] '\n'.toNat := ⟨[0, 10], by decide, by decide⟩
  have h : Spells '\'' mixedText mixedBody :=
    .char (.escape (.octal rfl he)) <| .continued <|
      .char (.escape (.hex (e := 'u') (by decide) rfl hquote)) <|
      .char (.escape (.hex (e := 'x') (by decide) rfl hA)) <|
      .char (.itself (by decide) (by decide)) <|
      .char (.escape (.hex (e := 'x') (by decide) rfl hline)) <| .continued .nil
  exact ⟨h, (decode_spelled (by decide) (by decide) (by decide) mixedText).2 mixedBody h⟩

end CliCompletion.Quoted
