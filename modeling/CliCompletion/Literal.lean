import CliCompletion.Number.Decimal

namespace CliCompletion

inductive Literal where
  | text (s : String)
  | int (n : Int)
  | float (x : Binary64)
  | bool (b : Bool)
  | none
  | list (items : List Literal)
  deriving Repr, Inhabited

namespace Literal

def text? : Literal → Option String
  | text s => some s
  | _ => Option.none

def isNone : Literal → Bool
  | none => true
  | _ => false

mutual

def word : Literal → String
  | text s => s
  | int n => toString n
  | float x => String.ofList x.text
  | bool true => "True"
  | bool false => "False"
  | none => "None"
  | list items => " ".intercalate (words items)

def words : List Literal → List String
  | [] => []
  | x :: xs => x.word :: words xs

end

end Literal

end CliCompletion
