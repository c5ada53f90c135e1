namespace CliCompletion.Toml

abbrev Reader := StateT (List Char) Option

namespace Reader

def fail {α : Type} : Reader α := fun _ => none

def rest : Reader (List Char) := fun s => some (s, s)

def skipTo (s : List Char) : Reader Unit := fun _ => some ((), s)

def run (test : Char → Bool) : Reader (List Char) := fun s => some (s.span test)

def accept (p : List Char) : Reader Bool := fun s =>
  if p.isPrefixOf s then some (true, s.drop p.length) else some (false, s)

def expect (p : List Char) : Reader Unit := do
  if !(← accept p) then fail

-- A blank within a line. A carriage return counts: in a sound document a line feed follows it.
def isBlank (c : Char) : Bool :=
  c == ' ' || c == '\t' || c == '\r'

def skipBlanks : Reader Unit := do
  let _ ← run isBlank

def endOfLine : Reader Unit := do
  skipBlanks
  if ← accept ['#'] then
    let _ ← run (· != '\n')
  match ← rest with
  | [] => return
  | _ => expect ['\n']

def afterGap : Bool → List Char → List Char
  | _, [] => []
  | true, c :: s => afterGap (c != '\n') s
  | false, c :: s =>
      if c == '#' then afterGap true s
      else if isBlank c || c == '\n' then afterGap false s
      else c :: s

def skipGap : Reader Unit := do
  skipTo (afterGap false (← rest))

end Reader

def isSound : List Char → Bool
  | [] => true
  | '\r' :: s => s.head? == some '\n' && isSound s
  | c :: s =>
      (c == '\t' || c == '\n' || (0x20 ≤ c.toNat && c.toNat != 0x7f)) && isSound s

end CliCompletion.Toml
