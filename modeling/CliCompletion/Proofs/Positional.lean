import CliCompletion.Text.Numbered
import Mathlib.Data.List.Forall2
import Mathlib.Data.Nat.Digits.Defs

namespace CliCompletion.Text

variable {base d n : Nat} {c : Char} {cs rest : List Char} {ds : List Nat}

def IsDigit (base : Nat) (c : Char) (d : Nat) : Prop :=
  d < base ∧ (c = Nat.digitChar d ∨ c = (Nat.digitChar d).toUpper)

instance : Decidable (IsDigit base c d) :=
  inferInstanceAs (Decidable (_ ∧ _))

def Writes (base : Nat) (cs : List Char) (n : Nat) : Prop :=
  ∃ ds, List.Forall₂ (IsDigit base) cs ds ∧ Nat.ofDigits base ds.reverse = n

theorem IsDigit.holds {P : Char → Nat → Prop} (h : IsDigit base c d)
    (hP : ∀ d < base, P (Nat.digitChar d) d ∧ P (Nat.digitChar d).toUpper d) : P c d := by
  obtain ⟨hd, rfl | rfl⟩ := h
  · exact (hP d hd).1
  · exact (hP d hd).2

theorem IsDigit.octalDigit (h : IsDigit 8 c d) : octalDigit c = some d :=
  h.holds (P := fun c d => Text.octalDigit c = some d) (by decide)

theorem IsDigit.hexDigit (h : IsDigit 16 c d) : hexDigit c = some d :=
  h.holds (P := fun c d => Text.hexDigit c = some d) (by decide)

theorem ofDigits_reverse (base : Nat) (ds : List Nat) :
    Nat.ofDigits base ds.reverse = ds.foldl (fun n d => base * n + d) 0 := by
  rw [Nat.ofDigits_eq_foldr, List.foldr_reverse]
  simp only [Nat.cast_id, Nat.add_comm]

theorem hex_of_forall₂ (h : List.Forall₂ (IsDigit 16) cs ds) (n : Nat) (rest : List Char) :
    hex cs.length n (cs ++ rest) = some (ds.foldl (fun n d => 16 * n + d) n, rest) := by
  induction h generalizing n with
  | nil => rfl
  | cons hd _ ih => rw [List.length_cons, List.cons_append, hex, hd.hexDigit, Option.bind_some, ih,
      List.foldl_cons]

theorem Writes.hex (h : Writes 16 cs n) (rest : List Char) :
    hex cs.length 0 (cs ++ rest) = some (n, rest) := by
  obtain ⟨ds, hds, rfl⟩ := h
  rw [hex_of_forall₂ hds, ofDigits_reverse]

end CliCompletion.Text
