import CliCompletion.Proofs.Constants
import CliCompletion.Proofs.Positional

namespace CliCompletion

namespace Numeral

variable {base d n : Nat} {c : Char} {s cs : List Char} {ds : List Nat}

def bases : List (Char × Nat) :=
  [('x', 16), ('X', 16), ('o', 8), ('O', 8), ('b', 2), ('B', 2)]

inductive Token : List Char → Nat → Prop
  | decimal {s ds : List Char} {n : Nat} (hds : s.filter (· != '_') = ds) (hne : ds ≠ [])
      (h : Text.Writes 10 ds n) : Token s n
  | based {e : Char} {base : Nat} {s ds : List Char} {n : Nat} (he : (e, base) ∈ bases)
      (hds : s.filter (· != '_') = ds) (hne : ds ≠ []) (h : Text.Writes base ds n) :
      Token ('0' :: e :: s) n

theorem digit_toLower (hb : base ≤ 16) (h : Text.IsDigit base c d) : digit c.toLower = some d := by
  have hall : ∀ d < 16, digit (Nat.digitChar d).toLower = some d ∧
      digit (Nat.digitChar d).toUpper.toLower = some d := by decide
  exact h.holds (P := fun c d => digit c.toLower = some d) fun d hd =>
    hall d (Nat.lt_of_lt_of_le hd hb)

theorem digitsFrom_of_forall₂ (hb : base ≤ 16) (h : List.Forall₂ (Text.IsDigit base) cs ds)
    (n : Nat) : digitsFrom base n (cs.map Char.toLower) =
      some (ds.foldl (fun n d => base * n + d) n) := by
  induction h generalizing n with
  | nil => rfl
  | cons hd _ ih =>
      rw [List.map_cons, digitsFrom, digit_toLower hb hd, Option.bind_some, if_pos hd.1, ih,
        List.foldl_cons]

theorem digits_of_writes (hb : base ≤ 16) (hne : cs ≠ []) (h : Text.Writes base cs n) :
    digits base (cs.map Char.toLower) = some n := by
  obtain ⟨ds, hds, rfl⟩ := h
  rw [digits, if_neg (by simpa using hne), digitsFrom_of_forall₂ hb hds, Text.ofDigits_reverse]

theorem splitBase_of_decimal (h : ∀ c ∈ s, c ∉ ['x', 'o', 'b']) : splitBase s = (10, s) := by
  unfold splitBase
  split
  · exact absurd (h 'x' (by simp)) (by decide)
  · exact absurd (h 'o' (by simp)) (by decide)
  · exact absurd (h 'b' (by simp)) (by decide)
  · rfl

theorem not_letter_of_writes (h : Text.Writes 10 cs n) :
    ∀ c ∈ cs.map Char.toLower, c ∉ ['x', 'o', 'b'] := by
  obtain ⟨ds, hds, -⟩ := h
  have hall : ∀ d < 10, (Nat.digitChar d).toLower ∉ ['x', 'o', 'b'] ∧
      (Nat.digitChar d).toUpper.toLower ∉ ['x', 'o', 'b'] := by decide
  induction hds with
  | nil => simp
  | cons hd _ ih =>
      rw [List.map_cons, List.forall_mem_cons]
      exact ⟨hd.holds (P := fun c _ => c.toLower ∉ ['x', 'o', 'b']) hall, ih⟩

theorem splitBase_of_bases {e : Char} (he : (e, base) ∈ bases) (s : List Char) :
    base ≤ 16 ∧ e ≠ '_' ∧ splitBase ('0' :: e.toLower :: s) = (base, s) := by
  simp only [bases, List.mem_cons, List.not_mem_nil, or_false, Prod.mk.injEq] at he
  rcases he with ⟨rfl, rfl⟩ | ⟨rfl, rfl⟩ | ⟨rfl, rfl⟩ | ⟨rfl, rfl⟩ | ⟨rfl, rfl⟩ | ⟨rfl, rfl⟩ <;>
    exact ⟨by decide, by decide, rfl⟩

theorem Token.int_eq (h : Token s n) : int s = if n ≤ maxInt then some (n : Int) else none := by
  cases h with
  | @decimal _ ds _ hds hne h =>
      have hsplit := splitBase_of_decimal (not_letter_of_writes h)
      rw [int, withoutUnderscores, hds, hsplit]
      simp [digits_of_writes (by decide) hne h]
  | @based e base s ds _ he hds hne h =>
      obtain ⟨hb, hmark, hsplit⟩ := splitBase_of_bases he (ds.map Char.toLower)
      have hrest : withoutUnderscores ('0' :: e :: s) = '0' :: e :: ds := by
        simp [withoutUnderscores, hmark, hds]
      have hzero : Char.toLower '0' = '0' := rfl
      rw [int, hrest, List.map_cons, List.map_cons, hzero, hsplit]
      simp [digits_of_writes hb hne h]

theorem int_bounded {k : Int} (h : int s = some k) : 0 ≤ k ∧ k ≤ maxInt := by
  obtain ⟨n, -, h⟩ := Option.bind_eq_some_iff.1 h
  split_ifs at h with hn
  obtain rfl := Option.some.inj h
  exact ⟨Int.natCast_nonneg n, Int.ofNat_le.2 hn⟩

end Numeral

inductive Literal.HasInteger : Literal → Int → Prop
  | itself (k : Int) : HasInteger (.int k) k
  | item {items : List Literal} {l : Literal} {k : Int} (hl : l ∈ items) (h : HasInteger l k) :
      HasInteger (.list items) k

def Literal.Bounded (l : Literal) : Prop :=
  ∀ k, l.HasInteger k → -Numeral.maxInt ≤ k ∧ k ≤ Numeral.maxInt

namespace Node

variable {context : String} {x : Extent} {n : Nat} {e : Node} {v : Int}

inductive SignedInteger (x : Extent) (n : Nat) : Node → Int → Prop
  | token : SignedInteger x n (.atom .integer x) n
  | minus {y : Extent} {e : Node} {v : Int} (h : SignedInteger x n e v) :
      SignedInteger x n (.signed .minus y e) (-v)
  | plus {y : Extent} {e : Node} {v : Int} (h : SignedInteger x n e v) :
      SignedInteger x n (.signed .plus y e) v
  | parentheses {y : Extent} {items : List Node} {e : Node} {v : Int}
      (hitems : items.filter (fun m => !m.isComment) = [e]) (h : SignedInteger x n e v) :
      SignedInteger x n (.group .parentheses y items) v

def tokenResult (context : String) (x : Extent) (n : Nat) (v : Int) :
    Except ExtractionError Literal :=
  if n ≤ Numeral.maxInt then .ok (.int v)
  else .error ((Node.atom .integer x).unsupported context)

theorem SignedInteger.scalar_eq (hx : Numeral.Token x.text.toList n) (h : SignedInteger x n e v) :
    e.scalar context = tokenResult context x n v := by
  induction h with
  | token =>
      simp only [scalar, atomValue, hx.int_eq, tokenResult]
      split_ifs <;> rfl
  | minus _ ih =>
      simp only [scalar, ih, tokenResult]
      split_ifs <;> rfl
  | plus _ ih =>
      simp only [scalar, ih, tokenResult]
      split_ifs <;> rfl
  | parentheses hitems _ ih =>
      simp only [scalar, scalars_eq_map, contents, hitems, List.map_singleton, ih]

theorem SignedInteger.value_eq (hx : Numeral.Token x.text.toList n) (h : SignedInteger x n e v) :
    e.value context = tokenResult context x n v := by
  induction h with
  | token => simpa only [value] using (SignedInteger.token (x := x)).scalar_eq hx
  | minus h _ => simpa only [value] using h.minus.scalar_eq hx
  | plus h _ => simpa only [value] using h.plus.scalar_eq hx
  | parentheses hitems _ ih =>
      simp only [value, values_eq_map, contents, hitems, List.map_singleton, ih]

section Bounds

variable {l l' : Literal} {ls : List Literal} {k : Int}

theorem bounded_int (h : -Numeral.maxInt ≤ k ∧ k ≤ Numeral.maxInt) : (Literal.int k).Bounded := by
  intro j hj
  cases hj
  exact h

theorem bounded_list (h : ∀ l ∈ ls, l.Bounded) : (Literal.list ls).Bounded := by
  intro k hk
  cases hk with
  | item hl hk => exact h _ hl k hk

theorem SignedNumber.bounded {sign : Sign} (hs : SignedNumber sign l l') (h : l.Bounded) :
    l'.Bounded := by
  cases hs with
  | minusInt k =>
      have hk := h k (.itself k)
      exact bounded_int ⟨by omega, by omega⟩
  | plusInt k => exact h
  | minusFloat y => exact fun _ hk => nomatch hk
  | plusFloat y => exact h

theorem ConstantScalar.bounded (h : e.ConstantScalar l) : l.Bounded := by
  induction h with
  | integer h =>
      have hb := Numeral.int_bounded h
      exact bounded_int ⟨by omega, hb.2⟩
  | signed hs _ ih => exact hs.bounded ih
  | parentheses _ _ ih => exact ih
  | _ => exact fun _ hk => nomatch hk

theorem ConstantValue.bounded (h : e.ConstantValue l) : l.Bounded := by
  induction h with
  | scalar h => exact h.bounded
  | display _ h =>
      refine bounded_list fun l hl => ?_
      obtain ⟨e, -, he⟩ := exists_mem_of_forall₂ h hl
      exact he.bounded
  | parentheses _ _ ih => exact ih

theorem scalar_bounded (e : Node) (l : Literal) (h : e.scalar context = .ok l) : l.Bounded :=
  (scalar_eq_ok_iff.1 h).bounded

theorem value_bounded (e : Node) (l : Literal) (h : e.value context = .ok l) : l.Bounded :=
  (value_eq_ok_iff.1 h).bounded

end Bounds

theorem maxInt_eq : (Numeral.maxInt : Int) = 2 ^ 63 - 1 := by
  decide

theorem neg_toInt {k : Int} (h : -Numeral.maxInt ≤ k ∧ k ≤ Numeral.maxInt) :
    (Int64.ofInt k).toInt = k ∧ (-Int64.ofInt k).toInt = -k := by
  rw [maxInt_eq] at h
  rw [Int64.neg_ofInt]
  exact ⟨Int64.toInt_ofInt_of_le (by omega) (by omega),
    Int64.toInt_ofInt_of_le (by omega) (by omega)⟩

theorem signedInteger_exact (context : String) :
    (∀ (x : Extent) (n : Nat) (e : Node) (v : Int), Numeral.Token x.text.toList n →
      SignedInteger x n e v →
      (n ≤ 2 ^ 63 - 1 → e.scalar context = .ok (.int v) ∧ e.value context = .ok (.int v)) ∧
      (2 ^ 63 - 1 < n →
        e.scalar context = .error ((Node.atom .integer x).unsupported context) ∧
        e.value context = .error ((Node.atom .integer x).unsupported context))) ∧
    ∀ (m : Node) (l : Literal) (k : Int), m.scalar context = .ok l ∨ m.value context = .ok l →
      l.HasInteger k → -(2 ^ 63 - 1) ≤ k ∧ k ≤ 2 ^ 63 - 1 ∧ (Int64.ofInt k).toInt = k ∧
        (-Int64.ofInt k).toInt = -k := by
  constructor
  · intro x n e v hx h
    have hmax : Numeral.maxInt = 2 ^ 63 - 1 := by decide
    rw [h.scalar_eq hx, h.value_eq hx, tokenResult]
    refine ⟨fun hn => ?_, fun hn => ?_⟩
    · rw [if_pos (hmax ▸ hn)]
      exact ⟨rfl, rfl⟩
    · rw [if_neg (by omega)]
      exact ⟨rfl, rfl⟩
  · intro m l k hm hk
    have hb : l.Bounded := hm.elim (m.scalar_bounded l) (m.value_bounded l)
    have hk := hb k hk
    rw [← maxInt_eq]
    exact ⟨hk.1, hk.2, neg_toInt hk⟩

def largestDigits : List Char :=
  ['_', '7', 'f', 'f', 'f', '_', 'F', 'F', 'F', 'F', 'f', 'f', 'f', 'f', '_', 'F', 'F', 'F', 'F']

def largest : Extent :=
  ⟨String.ofList ('0' :: 'X' :: largestDigits), 2, 2⟩

def negatedLargest : Node :=
  .signed .minus ⟨"-(..)", 1, 2⟩ (.group .parentheses ⟨"(..)", 1, 2⟩
    [.comment ⟨"# no part of the value", 1, 1⟩,
      .signed .plus ⟨"+..", 2, 2⟩ (.atom .integer largest)])

theorem signedInteger_exact_largest :
    Numeral.Token largest.text.toList 9223372036854775807 ∧
    SignedInteger largest 9223372036854775807 negatedLargest (-9223372036854775807) ∧
    negatedLargest.scalar "choices" = .ok (.int (-9223372036854775807)) ∧
    negatedLargest.value "choices" = .ok (.int (-9223372036854775807)) := by
  have hd : Text.Writes 16 (largestDigits.filter (· != '_')) 9223372036854775807 :=
    ⟨7 :: List.replicate 15 15, by decide, by decide⟩
  have hx : Numeral.Token largest.text.toList 9223372036854775807 := by
    rw [largest, String.toList_ofList]
    exact .based (by decide) rfl (by decide) hd
  have h : SignedInteger largest 9223372036854775807 negatedLargest (-9223372036854775807) :=
    .minus (.parentheses rfl (.plus .token))
  have hexact := (signedInteger_exact "choices").1 largest _ negatedLargest _ hx h
  exact ⟨hx, h, hexact.1 (by decide)⟩

end Node

end CliCompletion
