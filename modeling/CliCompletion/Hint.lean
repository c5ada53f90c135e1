import CliCompletion.Script.Comment
import CliCompletion.Text.Blank

namespace CliCompletion

inductive Completer where
  | branchName
  deriving DecidableEq, Repr

namespace Completer

def ofName : String → Option Completer
  | "branchname" => some branchName
  | _ => none

def function : Completer → String
  | branchName => "__bashcompletils_branchname"

end Completer

structure Hint where
  line : Nat
  text : String
  pairs : List (String × String)
  deriving DecidableEq, Repr

namespace Hint

def pair (token : List Char) : Option (String × String) :=
  match Text.splitAtFirst '=' token with
  | some (key, value) =>
      if key.isEmpty || value.isEmpty then none
      else some (String.ofList key, String.ofList value)
  | none => none

def pairsOf (text : List Char) : List (String × String) :=
  (Text.words text).filterMap pair

def ofText (line : Nat) (text : String) : Hint :=
  ⟨line, text, pairsOf text.toList⟩

def get (a : Hint) (key : String) : Option String :=
  (a.pairs.find? (·.1 == key)).map (·.2)

def completer (a : Hint) : Option Completer :=
  (a.get "func").bind Completer.ofName

def afterMarker (marker s : List Char) : Option (List Char) :=
  if marker.isPrefixOf s then
    match s.drop marker.length with
    | [] => some []
    | c :: rest => if Text.isBlank c then some (Text.trim (c :: rest)) else none
  else none

def afterBlanks (marker : List Char) : List Char → Option (List Char)
  | [] => afterMarker marker []
  | c :: s =>
      if Text.isBlank c then (afterBlanks marker s).or (afterMarker marker (c :: s))
      else afterMarker marker (c :: s)

def body (marker : List Char) : List Char → Option (List Char)
  | '#' :: s => afterBlanks marker s
  | _ => none

def ofComment (marker : String) (c : Comment) : Option Hint :=
  if c.isTrailing then
    (body marker.toList c.text).map fun s => ofText c.line (String.ofList s)
  else none

def scan (marker : String) (comments : List Comment) : List Hint :=
  comments.filterMap (ofComment marker)

def onLine (hints : List Hint) (line : Nat) : Option Hint :=
  hints.find? (·.line == line)

end Hint

end CliCompletion
