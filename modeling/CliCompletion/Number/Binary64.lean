namespace CliCompletion

inductive Binary64 where
  | nan
  | infinite (negative : Bool)
  | finite (negative : Bool) (significand : Nat) (exponent : Int)
  deriving DecidableEq, Repr, Inhabited

namespace Binary64

def minNormal : Nat := Nat.pow 2 52

def minExponent : Int := -1074

def maxExponent : Int := 971

def roundDiv (num den : Nat) : Nat :=
  let q := num / den
  let r := 2 * (num % den)
  if r < den then q
  else if den < r then q + 1
  else q + q % 2

def scaled (num den : Nat) (e : Int) : Nat × Nat :=
  if e < 0 then (num * Nat.pow 2 (-e).toNat, den) else (num, den * Nat.pow 2 e.toNat)

def exponentOf (num den : Nat) : Int :=
  let guess := max ((num.log2 : Int) - den.log2 - 52) minExponent
  let (n, d) := scaled num den guess
  if n / d < minNormal && minExponent < guess then guess - 1 else guess

def carried (negative : Bool) (significand : Nat) (e : Int) : Binary64 :=
  let (m, e) := if significand = 2 * minNormal then (minNormal, e + 1) else (significand, e)
  if maxExponent < e then infinite negative else finite negative m e

def ofRatio (negative : Bool) (num den : Nat) : Binary64 :=
  if num = 0 then finite negative 0 minExponent
  else
    let e := exponentOf num den
    let (n, d) := scaled num den e
    carried negative (roundDiv n d) e

def neg : Binary64 → Binary64
  | nan => nan
  | infinite s => infinite !s
  | finite s m e => finite (!s) m e

def whole? (significand : Nat) (e : Int) : Option Nat :=
  if 0 ≤ e then some (significand * Nat.pow 2 e.toNat)
  else if significand % Nat.pow 2 (-e).toNat = 0 then some (significand / Nat.pow 2 (-e).toNat)
  else none

end Binary64

end CliCompletion
