import CliCompletion.Number.Decimal

namespace CliCompletion.Numeral

def maxInt : Nat := Nat.pow 2 63 - 1

def digit (c : Char) : Option Nat :=
  if '0' ≤ c ∧ c ≤ '9' then some (c.toNat - '0'.toNat)
  else if 'a' ≤ c ∧ c ≤ 'z' then some (c.toNat - 'a'.toNat + 10)
  else none

def digitsFrom (base : Nat) (n : Nat) : List Char → Option Nat
  | [] => some n
  | c :: s => (digit c).bind fun d => if d < base then digitsFrom base (base * n + d) s else none

def digits (base : Nat) (s : List Char) : Option Nat :=
  if s.isEmpty then none else digitsFrom base 0 s

def splitBase : List Char → Nat × List Char
  | '0' :: 'x' :: s => (16, s)
  | '0' :: 'o' :: s => (8, s)
  | '0' :: 'b' :: s => (2, s)
  | s => (10, s)

def withoutUnderscores (s : List Char) : List Char :=
  s.filter (· != '_')

def int (s : List Char) : Option Int :=
  let (base, ds) := splitBase ((withoutUnderscores s).map Char.toLower)
  (digits base ds).bind fun n => if n ≤ maxInt then some n else none

def float (s : List Char) : Option Binary64 :=
  Decimal.read (withoutUnderscores s)

end CliCompletion.Numeral
