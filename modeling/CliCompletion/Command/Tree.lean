import CliCompletion.Hint
import CliCompletion.Literal
import CliCompletion.OrderedMap

namespace CliCompletion

inductive CommandId where
  | handle (name : String)
  | anonymous (number : Nat)
  deriving DecidableEq, Repr, Inhabited

def CommandId.label : CommandId → String
  | handle name => name
  | anonymous n => "<anonymous #" ++ toString n ++ ">"

structure Command where
  id : CommandId
  name : String
  parent : Option CommandId
  inherits : List CommandId
  line : Nat
  deriving DecidableEq, Repr

structure Argument where
  owner : CommandId
  literals : List Literal
  options : OrderedMap String Literal
  hint : Option Hint
  line : Nat
  deriving Repr

namespace Argument

def name (a : Argument) : String :=
  (a.literals.head?.bind Literal.text?).getD ""

def isFlag (a : Argument) : Bool :=
  a.name.toList.head? == some '-'

def option? (a : Argument) (keyword : String) : Option Literal :=
  a.options.find? keyword

def choices (a : Argument) : List String :=
  match a.option? "choices" with
  | some (.list items) => items.map Literal.word
  | some (.text s) => s.toList.map String.singleton
  | _ => []

def nargs (a : Argument) : Option String :=
  match a.option? "nargs" with
  | some l => if l.isNone then none else some l.word
  | none => none

def completer (a : Argument) : Option Completer :=
  a.hint.bind Hint.completer

end Argument

structure CommandTree where
  root : CommandId
  commands : OrderedMap CommandId Command
  arguments : List Argument
  deriving Repr

namespace CommandTree

def find? (t : CommandTree) (id : CommandId) : Option Command :=
  t.commands.find? id

def children (t : CommandTree) (id : CommandId) : List Command :=
  t.commands.values.filter (·.parent == some id)

def namesTo (t : CommandTree) : Nat → Command → Option (List String)
  | 0, _ => none
  | n + 1, c =>
      match c.parent with
      | none => if c.id = t.root then some [] else none
      | some p => (t.find? p).bind fun above => (t.namesTo n above).map (· ++ [c.name])

def ancestry (t : CommandTree) (id : CommandId) : Option (List String) :=
  (t.find? id).bind (t.namesTo t.commands.length)

def addInheritors (t : CommandTree) (found : List CommandId) (id : CommandId) : List CommandId :=
  t.commands.values.foldl (fun found c =>
    if c.inherits.contains id && !found.contains c.id then found ++ [c.id] else found) found

def spread (t : CommandTree) : Nat → Nat → List CommandId → List CommandId
  | 0, _, found => found
  | n + 1, next, found =>
      match found[next]? with
      | none => found
      | some id => t.spread n (next + 1) (t.addInheritors found id)

def receivers (t : CommandTree) (id : CommandId) : List CommandId :=
  t.spread (t.commands.length + 1) 0 [id]

end CommandTree

end CliCompletion
