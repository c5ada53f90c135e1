namespace CliCompletion.Toml.Plain

def isRun (digit : Char → Bool) (s : List Char) : Bool :=
  (s.splitOn '_').all fun p => !p.isEmpty && p.all digit

def isDigits (s : List Char) : Bool :=
  isRun Char.isDigit s

def isHexDigit (c : Char) : Bool :=
  c.isDigit || ('a' ≤ c && c ≤ 'f') || ('A' ≤ c && c ≤ 'F')

def withoutSign : List Char → List Char
  | '+' :: s => s
  | '-' :: s => s
  | s => s

def isWhole (s : List Char) : Bool :=
  isDigits s && (s.head? != some '0' || s == ['0'])

def isInteger : List Char → Bool
  | '0' :: 'x' :: s => isRun isHexDigit s
  | '0' :: 'o' :: s => isRun (fun c => '0' ≤ c && c ≤ '7') s
  | '0' :: 'b' :: s => isRun (fun c => c == '0' || c == '1') s
  | s => isWhole (withoutSign s)

def isFloat (s : List Char) : Bool :=
  let s := withoutSign s
  let (number, exponent) := s.span fun c => c != 'e' && c != 'E'
  let (whole, fraction) := number.span (· != '.')
  s == ['i', 'n', 'f'] || s == ['n', 'a', 'n'] ||
    (isWhole whole && (fraction.isEmpty || isDigits fraction.tail) &&
      (exponent.isEmpty || isDigits (withoutSign exponent.tail)) &&
      !(fraction.isEmpty && exponent.isEmpty))

def digits? (count : Nat) (s : List Char) : Option Nat :=
  if s.length == count && s.all Char.isDigit then
    some (s.foldl (fun n c => 10 * n + (c.toNat - '0'.toNat)) 0)
  else none

def isLeap (year : Nat) : Bool :=
  year % 4 == 0 && (year % 100 != 0 || year % 400 == 0)

def daysIn (year month : Nat) : Nat :=
  if month == 2 then (if isLeap year then 29 else 28)
  else if month == 4 || month == 6 || month == 9 || month == 11 then 30 else 31

def isDate (s : List Char) : Bool :=
  match s.splitOn '-' with
  | [y, m, d] =>
      match digits? 4 y, digits? 2 m, digits? 2 d with
      | some y, some m, some d => 1 ≤ m && m ≤ 12 && 1 ≤ d && d ≤ daysIn y m
      | _, _, _ => false
  | _ => false

def isHourMinute (h m : List Char) : Bool :=
  match digits? 2 h, digits? 2 m with
  | some h, some m => h ≤ 23 && m ≤ 59
  | _, _ => false

def isSecond (s : List Char) : Bool :=
  let (whole, fraction) := s.span (· != '.')
  (match digits? 2 whole with
    | some n => n ≤ 60
    | none => false) &&
  match fraction with
  | [] => true
  | _ :: ds => !ds.isEmpty && ds.all Char.isDigit

def isTime (s : List Char) : Bool :=
  match s.splitOn ':' with
  | [h, m, sec] => isHourMinute h m && isSecond sec
  | _ => false

def isOffset : List Char → Bool
  | [] => true
  | 'Z' :: s => s.isEmpty
  | 'z' :: s => s.isEmpty
  | _ :: s =>
      match s.splitOn ':' with
      | [h, m] => isHourMinute h m
      | _ => false

def isMoment (s : List Char) : Bool :=
  let (date, time) := s.span fun c => c != 'T' && c != 't' && c != ' '
  match time with
  | [] => isDate s || isTime s
  | _ :: time =>
      let (clock, offset) := time.span fun c => c.isDigit || c == ':' || c == '.'
      isDate date && isTime clock && isOffset offset

def isMark (c : Char) : Bool :=
  c.isAlphanum || c == '+' || c == '-' || c == '_' || c == '.' || c == ':'

def isValue (s : List Char) : Bool :=
  isInteger s || isFloat s || isMoment s

end CliCompletion.Toml.Plain
