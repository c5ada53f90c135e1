import CliCompletion.Command.Registry

namespace CliCompletion.Objects

open Vocabulary

structure Variable where
  name : String
  line : Nat

-- A group stands for the object that it was opened on.
inductive Value where
  | command (object : Nat)
  | group (owner : Nat)

def Value.object : Value → Nat
  | command i => i
  | group i => i

structure Entity where
  name : String
  parent : Option Nat
  inherits : List Nat
  line : Nat

structure Fact where
  owner : Nat
  content : Declaration
  hint : Option Hint
  line : Nat

structure World where
  entities : List Entity
  values : String → Option Value
  facts : List Fact

inductive Statement where
  | parser (targets : List String) (parents : List Variable) (line : Nat)
  | subparsers (targets : List String) (owner : Variable)
  | command (targets : List String) (group : Variable) (name : String) (parents : List Variable)
      (line : Nat)
  | argumentGroup (targets : List String) (owner : Variable)
  | argument (owner : Variable) (content : Declaration) (lastLine : Nat)

namespace World

def empty : World :=
  ⟨[], fun _ => none, []⟩

def assign (w : World) (targets : List String) (v : Value) : World :=
  { w with values := fun x => if targets.contains x then some v else w.values x }

def create (w : World) (targets : List String) (e : Entity) : World :=
  { w with entities := w.entities ++ [e] }.assign targets (.command w.entities.length)

def declare (w : World) (f : Fact) : World :=
  { w with facts := w.facts ++ [f] }

def commandIn (w : World) (v : Variable) : Except ExtractionError Nat :=
  match w.values v.name with
  | some (.command i) => .ok i
  | _ => .error (.unknownHandle v.name v.line)

def objectIn (w : World) (v : Variable) : Except ExtractionError Nat :=
  match w.values v.name with
  | some x => .ok x.object
  | none => .error (.unknownHandle v.name v.line)

def commandsIn (w : World) : List Variable → Except ExtractionError (List Nat)
  | [] => .ok []
  | v :: vs => do
      let i ← w.commandIn v
      let is ← w.commandsIn vs
      return i :: is

def child? (w : World) (owner : Nat) (name : String) : Option Nat :=
  (w.entities.zipIdx.find? fun p => p.1.parent == some owner && p.1.name == name).map (·.2)

def run (hints : List Hint) (w : World) : Statement → Except ExtractionError World
  | .parser targets parents line => do
      let inherits ← w.commandsIn parents
      return w.create targets ⟨"", none, inherits, line⟩
  | .subparsers targets owner => do
      let i ← w.commandIn owner
      return w.assign targets (.group i)
  | .command targets group name parents line => do
      let owner ← w.objectIn group
      match w.child? owner name with
      | some i => return w.assign targets (.command i)
      | none =>
          let inherits ← w.commandsIn parents
          return w.create targets ⟨name, some owner, inherits, line⟩
  | .argumentGroup targets owner => do
      let i ← w.commandIn owner
      return w.assign targets (.command i)
  | .argument owner content lastLine => do
      let i ← w.commandIn owner
      return w.declare ⟨i, content, Hint.onLine hints lastLine, lastLine⟩

def runAll (hints : List Hint) (w : World) : List Statement → Except ExtractionError World
  | [] => .ok w
  | s :: ss => do
      let w ← w.run hints s
      w.runAll hints ss

def topLevel (w : World) : List Nat :=
  (w.entities.zipIdx.filter (·.1.parent.isNone)).map (·.2)

def hasChildren (w : World) (i : Nat) : Bool :=
  w.entities.any (·.parent == some i)

def isInherited (w : World) (i : Nat) : Bool :=
  w.entities.any (·.inherits.contains i)

def root? (w : World) : Option Nat :=
  (w.topLevel.find? w.hasChildren).or
    ((w.topLevel.reverse.find? fun i => !w.isInherited i).or w.topLevel.getLast?)

end World

section Reading

def variableOf? : Node → Option Variable
  | .atom .identifier x => some ⟨x.text, x.line⟩
  | _ => none

def valueOf? (keyword : String) : List Node → Option Node
  | [] => none
  | .keyword _ name value :: ns => if name = keyword then some value else valueOf? keyword ns
  | _ :: ns => valueOf? keyword ns

def listed? : List Node → Option (List Variable)
  | [] => some []
  | n :: ns =>
      if n.isComment then listed? ns
      else do
        let v ← variableOf? n
        let vs ← listed? ns
        return v :: vs

def parents? (o : ExtractionOptions) (arguments : Node) : Option (List Variable) :=
  if o.ignores Vocabulary.parents then some []
  else match arguments with
    | .group _ _ items =>
        match valueOf? Vocabulary.parents items with
        | none => some []
        | some (.group .list _ elements) => listed? elements
        | some (.group .tuple _ elements) => listed? elements
        | some _ => none
    | _ => some []

def construction? (o : ExtractionOptions) (c : Call) : Option Statement :=
  if c.targets.isEmpty then none
  else (parents? o c.arguments).map fun vs => .parser c.targets vs c.extent.line

def method? (o : ExtractionOptions) (c : Call) (v : Variable) (name : String) :
    Option Statement :=
  if name = addSubparsers then
    if c.targets.isEmpty then none else some (.subparsers c.targets v)
  else if name = addParser then
    match Node.subcommandName c.arguments c.extent.line, parents? o c.arguments with
    | .ok n, some vs => some (.command c.targets v n vs c.extent.line)
    | _, _ => none
  else if name = addArgument then
    match Node.declaration o c.arguments c.extent.line with
    | .ok d => some (.argument v d c.extent.lastLine)
    | .error _ => none
  else if argumentGroups.contains name then
    if c.targets.isEmpty then none else some (.argumentGroup c.targets v)
  else none

def statement? (o : ExtractionOptions) (c : Call) : Option Statement :=
  if !(c.function.calls ++ c.arguments.calls).isEmpty then none
  else match c.function with
    | .atom .identifier f => if f.text = parserClass then construction? o c else none
    | .member _ object name =>
        if name = parserClass then construction? o c
        else (variableOf? object).bind fun v => method? o c v name
    | _ => none

def statements? (o : ExtractionOptions) : List Call → Option (List Statement)
  | [] => some []
  | c :: cs => do
      let s ← statement? o c
      let ss ← statements? o cs
      return s :: ss

end Reading

end CliCompletion.Objects
