import CliCompletion.Number.Binary64

namespace CliCompletion

structure Decimal where
  digits : Nat
  exponent : Int
  deriving DecidableEq, Repr

namespace Decimal

def digitValue (c : Char) : Nat :=
  c.toNat - '0'.toNat

def ofDigits (ds : List Char) : Nat :=
  ds.foldl (fun n c => 10 * n + digitValue c) 0

def exponentLimit : Int := 400

def toBinary64 (negative : Bool) (d : Decimal) : Binary64 :=
  let size : Int := (Nat.toDigits 10 d.digits).length + d.exponent
  if d.digits = 0 || size < -exponentLimit then .ofRatio negative 0 1
  else if exponentLimit < size then .infinite negative
  else if d.exponent < 0 then .ofRatio negative d.digits (Nat.pow 10 (-d.exponent).toNat)
  else .ofRatio negative (d.digits * Nat.pow 10 d.exponent.toNat) 1

def splitSign : List Char → Bool × List Char
  | '-' :: s => (true, s)
  | '+' :: s => (false, s)
  | s => (false, s)

def readExponent : List Char → Option Int
  | [] => some 0
  | c :: s =>
      if c = 'e' || c = 'E' then
        let (negative, ds) := splitSign s
        if ds.isEmpty || !ds.all Char.isDigit then none
        else some (if negative then -(ofDigits ds : Int) else ofDigits ds)
      else none

def readUnsigned (s : List Char) : Option Decimal :=
  let whole := s.takeWhile Char.isDigit
  let rest := s.dropWhile Char.isDigit
  let (fraction, rest) := match rest with
    | '.' :: t => (t.takeWhile Char.isDigit, t.dropWhile Char.isDigit)
    | t => ([], t)
  if whole.isEmpty && fraction.isEmpty then none
  else (readExponent rest).map fun e => ⟨ofDigits (whole ++ fraction), e - fraction.length⟩

def read (s : List Char) : Option Binary64 :=
  let (negative, body) := splitSign s
  let word := body.map Char.toLower
  if word = "inf".toList || word = "infinity".toList then some (.infinite negative)
  else if word = "nan".toList then some .nan
  else (readUnsigned body).map (toBinary64 negative)

def stripZeros : Nat → Decimal → Decimal
  | 0, d => d
  | n + 1, d =>
      if d.digits % 10 = 0 && d.digits != 0 then stripZeros n ⟨d.digits / 10, d.exponent + 1⟩ else d

def positional (d : Decimal) : List Char :=
  let ds := Nat.toDigits 10 d.digits
  if 0 ≤ d.exponent then ds ++ List.replicate d.exponent.toNat '0'
  else
    let places := (-d.exponent).toNat
    let padded := List.replicate (places + 1 - ds.length) '0' ++ ds
    padded.take (padded.length - places) ++ '.' :: padded.drop (padded.length - places)

end Decimal

namespace Binary64

def quotient (num : Nat) (two ten : Int) : Nat × Nat :=
  (num * Nat.pow 2 two.toNat * Nat.pow 10 ten.toNat,
    Nat.pow 2 (-two).toNat * Nat.pow 10 (-ten).toNat)

def quotientLt (a b : Nat × Nat) : Bool :=
  a.1 * b.2 < b.1 * a.2

-- A decimal reads back as a number that it lies nearest to: between the midpoints on both sides,
-- which belong to the number when its significand is even.
def readsBack (m : Nat) (e : Int) (d : Nat) (k : Int) : Bool :=
  let below := if m = minNormal && minExponent < e then 4 * m - 1 else 4 * m - 2
  let above := 4 * m + 2
  let point := quotient d 0 k
  let low := quotient below (e - 2) 0
  let high := quotient above (e - 2) 0
  if m % 2 = 0 then !quotientLt point low && !quotientLt high point
  else quotientLt low point && quotientLt point high

def goesUp (m : Nat) (e : Int) (d : Nat) (k : Int) : Bool :=
  !quotientLt (quotient (2 * m) e 0) (quotient (2 * d + 1) 0 k)

def magnitude (m : Nat) (e : Int) : Nat → Int → Int
  | 0, k => k
  | n + 1, k => if quotientLt (quotient m e 0) (quotient 1 0 k) then k else magnitude m e n (k + 1)

def shortestFrom (m : Nat) (e top : Int) : Nat → Nat → Decimal
  | 0, _ => ⟨m, e⟩
  | left + 1, n =>
      let k := top - n
      let (num, den) := quotient m e (-k)
      let d := num / den
      let lower := readsBack m e d k
      let upper := readsBack m e (d + 1) k
      if lower && (!upper || !goesUp m e d k) then ⟨d, k⟩
      else if upper then ⟨d + 1, k⟩
      else shortestFrom m e top left (n + 1)

def shortest (m : Nat) (e : Int) : Decimal :=
  let guess : Int := ((m.log2 : Int) + e) * 30103 / 100000 - 2
  (shortestFrom m e (magnitude m e 6 guess) 17 1).stripZeros 17

def signText (negative : Bool) : List Char :=
  if negative then ['-'] else []

def text : Binary64 → List Char
  | nan => "NaN".toList
  | infinite s => signText s ++ "inf".toList
  | finite s m e =>
      signText s ++ match whole? m e with
        | some n => Nat.toDigits 10 n ++ ".0".toList
        | none => (shortest m e).positional

end Binary64

end CliCompletion
