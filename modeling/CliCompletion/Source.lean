namespace CliCompletion

structure Segment where
  name : String
  firstLine : Nat
  lines : Nat
  deriving DecidableEq, Repr

structure SourceUnit where
  text : String
  segments : List Segment
  deriving DecidableEq, Repr

namespace SourceUnit

def empty : SourceUnit :=
  ⟨"", []⟩

def nextLine (u : SourceUnit) : Nat :=
  match u.segments.getLast? with
  | none => 1
  | some s => s.firstLine + s.lines

def push (u : SourceUnit) (name content : String) : SourceUnit where
  text := u.text ++ content ++ "\n"
  segments := u.segments ++ [⟨name, u.nextLine, content.toList.count '\n' + 1⟩]

def locate (u : SourceUnit) (line : Nat) : Option (String × Nat) :=
  (u.segments.find? fun s => s.firstLine ≤ line && line < s.firstLine + s.lines).map fun s =>
    (s.name, line - s.firstLine + 1)

def describe (u : SourceUnit) : String :=
  ", ".intercalate (u.segments.map (·.name))

end SourceUnit

end CliCompletion
