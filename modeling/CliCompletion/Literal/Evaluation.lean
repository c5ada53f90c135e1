import CliCompletion.Command.Failure
import CliCompletion.Literal
import CliCompletion.Literal.Numeral

namespace CliCompletion.Node

def stringText (context : String) : Node → Except ExtractionError String
  | n@(.string x fields) =>
      if fields.isEmpty then
        match Quoted.decode x.text.toList with
        | some s => .ok (String.ofList s)
        | none => .error (n.unsupported context)
      else .error (n.unsupported context)
  | n => .error (n.unsupported context)

def stringsText (context : String) : List Node → Except ExtractionError String
  | [] => .ok ""
  | n :: ns =>
      if n.isComment then stringsText context ns
      else do
        let s ← n.stringText context
        let rest ← stringsText context ns
        return s ++ rest

def applySign : Sign → Literal → Option Literal
  | .minus, .int n => some (.int (-n))
  | .minus, .float x => some (.float x.neg)
  | .plus, .int n => some (.int n)
  | .plus, .float x => some (.float x)
  | _, _ => none

def orUnsupported (n : Node) (context : String) : Option Literal → Except ExtractionError Literal
  | some l => .ok l
  | none => .error (n.unsupported context)

def atomValue (context : String) (kind : Atom) (x : Extent) : Except ExtractionError Literal :=
  let n : Node := .atom kind x
  match kind with
  | .integer => n.orUnsupported context ((Numeral.int x.text.toList).map .int)
  | .float => n.orUnsupported context ((Numeral.float x.text.toList).map .float)
  | .true => .ok (.bool true)
  | .false => .ok (.bool false)
  | .none => .ok .none
  | .identifier | .ellipsis => .error (n.unsupported context)

mutual

def scalar (context : String) : Node → Except ExtractionError Literal
  | .atom kind x => atomValue context kind x
  | .string x fields => (stringText context (.string x fields)).map .text
  | .group .adjacentStrings _ items => (stringsText context items).map .text
  | .group .parentheses x items =>
      match scalars context items with
      | [value] => value
      | _ => .error ((Node.group .parentheses x items).unsupported context)
  | .signed sign x operand => do
      let value ← scalar context operand
      (Node.signed sign x operand).orUnsupported context (applySign sign value)
  | n => .error (n.unsupported context)

def scalars (context : String) : List Node → List (Except ExtractionError Literal)
  | [] => []
  | n :: ns => if n.isComment then scalars context ns else scalar context n :: scalars context ns

end

def isPlaceholder : Node → Bool
  | .group .list _ items => items.all isComment
  | .group .tuple _ items => items.all isComment
  | _ => false

def elements (context : String) : List Node → Except ExtractionError (List Literal)
  | [] => .ok []
  | n :: ns =>
      if n.isComment || n.isPlaceholder then elements context ns
      else do
        let value ← scalar context n
        let rest ← elements context ns
        return value :: rest

mutual

def value (context : String) : Node → Except ExtractionError Literal
  | .group .list _ items => (elements context items).map .list
  | .group .tuple _ items => (elements context items).map .list
  | .group .set _ items => (elements context items).map .list
  | .group .parentheses x items =>
      match values context items with
      | [value] => value
      | _ => .error ((Node.group .parentheses x items).unsupported context)
  | n => scalar context n

def values (context : String) : List Node → List (Except ExtractionError Literal)
  | [] => []
  | n :: ns => if n.isComment then values context ns else value context n :: values context ns

end

end CliCompletion.Node
