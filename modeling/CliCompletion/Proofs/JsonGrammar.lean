import CliCompletion.Json
import CliCompletion.Text.Numbered
import Mathlib.Tactic.SplitIfs

namespace CliCompletion.Json

inductive Value where
  | null
  | truth (b : Bool)
  | number (numeral : List Char)
  | text (s : String)
  | array (items : List Value)
  | object (fields : List (String × Value))

def isBlank (c : Char) : Bool :=
  c == ' ' || c == '\t' || c == '\n' || c == '\r'

def Gap (s : List Char) : Prop :=
  ∀ c ∈ s, isBlank c = true

def shortEscape : Char → Option Char
  | '"' => some '"'
  | '\\' => some '\\'
  | '/' => some '/'
  | 'b' => some '\x08'
  | 'f' => some '\x0c'
  | 'n' => some '\n'
  | 'r' => some '\r'
  | 't' => some '\t'
  | _ => none

def joinUnits (high low : Nat) : Nat :=
  0x10000 + (high - 0xd800) * 0x400 + (low - 0xdc00)

def isHigh (n : Nat) : Bool :=
  0xd800 ≤ n && n < 0xdc00

def isLow (n : Nat) : Bool :=
  0xdc00 ≤ n && n < 0xe000

inductive Glyph : Char → List Char → Prop
  | plain {c : Char} (hc : 0x20 ≤ c.toNat) (hq : c ≠ '"') (hb : c ≠ '\\') : Glyph c [c]
  | short {e c : Char} (h : shortEscape e = some c) : Glyph c ['\\', e]
  | unit {c : Char} {ds : List Char} (h : Text.hex 4 0 ds = some (c.toNat, [])) :
      Glyph c ('\\' :: 'u' :: ds)
  | pair {c : Char} {ds es : List Char} {high low : Nat}
      (hds : Text.hex 4 0 ds = some (high, [])) (hes : Text.hex 4 0 es = some (low, []))
      (hhigh : isHigh high = true) (hlow : isLow low = true)
      (hc : c.toNat = joinUnits high low) : Glyph c ('\\' :: 'u' :: (ds ++ '\\' :: 'u' :: es))

inductive Written : List Char → List Char → Prop
  | nil : Written [] []
  | cons {c : Char} {g cs w : List Char} (hg : Glyph c g) (h : Written cs w) :
      Written (c :: cs) (g ++ w)

def SpellsText (s : String) (t : List Char) : Prop :=
  ∃ w, t = '"' :: (w ++ ['"']) ∧ Written s.toList w

def isDigits (s : List Char) : Bool :=
  !s.isEmpty && s.all Char.isDigit

def isExponent : List Char → Bool
  | [] => true
  | e :: '+' :: s => (e == 'e' || e == 'E') && isDigits s
  | e :: '-' :: s => (e == 'e' || e == 'E') && isDigits s
  | e :: s => (e == 'e' || e == 'E') && isDigits s

def isFraction : List Char → Bool
  | '.' :: c :: s => c.isDigit && isExponent (s.dropWhile Char.isDigit)
  | s => isExponent s

def isUnsigned : List Char → Bool
  | '0' :: s => isFraction s
  | c :: s => c.isDigit && isFraction (s.dropWhile Char.isDigit)
  | [] => false

def isNumeral : List Char → Bool
  | '-' :: s => isUnsigned s
  | s => isUnsigned s

def wordValue (w : List Char) : Option Value :=
  if w = ['n', 'u', 'l', 'l'] then some .null
  else if w = ['t', 'r', 'u', 'e'] then some (.truth true)
  else if w = ['f', 'a', 'l', 's', 'e'] then some (.truth false)
  else if isNumeral w then some (.number w)
  else none

mutual

inductive Spells : Value → List Char → Prop
  | word {v : Value} {w : List Char} (h : wordValue w = some v) : Spells v w
  | text {s : String} {t : List Char} (h : SpellsText s t) : Spells (.text s) t
  | noItems {g : List Char} (hg : Gap g) : Spells (.array []) ('[' :: (g ++ [']']))
  | items {vs : List Value} {t : List Char} (h : SpellsItems vs t) :
      Spells (.array vs) ('[' :: (t ++ [']']))
  | noFields {g : List Char} (hg : Gap g) : Spells (.object []) ('\x7b' :: (g ++ ['\x7d']))
  | fields {fs : List (String × Value)} {t : List Char} (h : SpellsFields fs t) :
      Spells (.object fs) ('\x7b' :: (t ++ ['\x7d']))

inductive SpellsItems : List Value → List Char → Prop
  | last {v : Value} {b t a : List Char} (hb : Gap b) (h : Spells v t) (ha : Gap a) :
      SpellsItems [v] (b ++ (t ++ a))
  | more {v : Value} {vs : List Value} {b t a r : List Char} (hb : Gap b) (h : Spells v t)
      (ha : Gap a) (hs : SpellsItems vs r) : SpellsItems (v :: vs) (b ++ (t ++ (a ++ ',' :: r)))

inductive SpellsFields : List (String × Value) → List Char → Prop
  | last {k : String} {v : Value} {b t a b' t' a' : List Char} (hb : Gap b)
      (hk : SpellsText k t) (ha : Gap a) (hb' : Gap b') (h : Spells v t') (ha' : Gap a') :
      SpellsFields [(k, v)] (b ++ (t ++ (a ++ ':' :: (b' ++ (t' ++ a')))))
  | more {k : String} {v : Value} {fs : List (String × Value)}
      {b t a b' t' a' r : List Char} (hb : Gap b) (hk : SpellsText k t) (ha : Gap a)
      (hb' : Gap b') (h : Spells v t') (ha' : Gap a') (hs : SpellsFields fs r) :
      SpellsFields ((k, v) :: fs) (b ++ (t ++ (a ++ ':' :: (b' ++ (t' ++ (a' ++ ',' :: r))))))

end

def Document (v : Value) (s : List Char) : Prop :=
  ∃ b t a, s = b ++ (t ++ a) ∧ Gap b ∧ Spells v t ∧ Gap a

def skipGap (s : List Char) : List Char :=
  s.dropWhile isBlank

def readUnit (s : List Char) : Option (Char × List Char) :=
  match Text.hex 4 0 s with
  | none => none
  | some (high, s) =>
      if isHigh high then
        match s with
        | '\\' :: 'u' :: s => (Text.hex 4 0 s).bind fun p =>
            if isLow p.1 then (Text.scalar (joinUnits high p.1)).map fun c => (c, p.2) else none
        | _ => none
      else (Text.scalar high).map fun c => (c, s)

def readGlyph : List Char → Option (Char × List Char)
  | [] => none
  | '\\' :: 'u' :: s => readUnit s
  | '\\' :: e :: s => (shortEscape e).map fun c => (c, s)
  | c :: s => if c.toNat < 0x20 || c == '"' || c == '\\' then none else some (c, s)

def readChars : Nat → List Char → Option (List Char × List Char)
  | 0, _ => none
  | _ + 1, '"' :: s => some ([], s)
  | n + 1, s => (readGlyph s).bind fun p => (readChars n p.2).map fun q => (p.1 :: q.1, q.2)

def readText : List Char → Option (String × List Char)
  | '"' :: s => (readChars s.length s).map fun p => (String.ofList p.1, p.2)
  | _ => none

def isWordChar (c : Char) : Bool :=
  c.isAlphanum || c == '-' || c == '+' || c == '.'

mutual

def readValue : Nat → List Char → Option (Value × List Char)
  | 0, _ => none
  | _ + 1, '"' :: s => (readText ('"' :: s)).map fun p => (.text p.1, p.2)
  | n + 1, '[' :: s =>
      match skipGap s with
      | ']' :: r => some (.array [], r)
      | _ => (readItems n s).map fun p => (.array p.1, p.2)
  | n + 1, '\x7b' :: s =>
      match skipGap s with
      | '\x7d' :: r => some (.object [], r)
      | _ => (readFields n s).map fun p => (.object p.1, p.2)
  | _ + 1, s => (wordValue (s.takeWhile isWordChar)).map fun v => (v, s.dropWhile isWordChar)

def readItems : Nat → List Char → Option (List Value × List Char)
  | 0, _ => none
  | n + 1, s => (readValue n (skipGap s)).bind fun p =>
      match skipGap p.2 with
      | ',' :: r => (readItems n r).map fun q => (p.1 :: q.1, q.2)
      | ']' :: r => some ([p.1], r)
      | _ => none

def readFields : Nat → List Char → Option (List (String × Value) × List Char)
  | 0, _ => none
  | n + 1, s => (readText (skipGap s)).bind fun k =>
      match skipGap k.2 with
      | ':' :: r => (readValue n (skipGap r)).bind fun p =>
          match skipGap p.2 with
          | ',' :: r => (readFields n r).map fun q => ((k.1, p.1) :: q.1, q.2)
          | '\x7d' :: r => some ([(k.1, p.1)], r)
          | _ => none
      | _ => none

end

def read (s : List Char) : Option Value :=
  match readValue s.length (skipGap s) with
  | some (v, r) => if skipGap r = [] then some v else none
  | none => none

end CliCompletion.Json
