import CliCompletion.Command.Expression

namespace CliCompletion

inductive Binding where
  | command (id : CommandId)
  | group (owner : CommandId)
  deriving DecidableEq, Repr

def Binding.owner : Binding → CommandId
  | command id => id
  | group owner => owner

structure Registry where
  commands : OrderedMap CommandId Command
  bindings : String → Option Binding
  arguments : List Argument
  nextAnonymous : Nat

abbrev Registering := StateT Registry (Except ExtractionError)

namespace Registry

def empty : Registry :=
  ⟨.empty, fun _ => none, [], 0⟩

def has (r : Registry) (id : CommandId) : Bool :=
  r.commands.contains id

def child? (r : Registry) (parent : CommandId) (name : String) : Option CommandId :=
  (r.commands.values.find? fun c => c.parent == some parent && c.name == name).map (·.id)

def bind (r : Registry) (targets : List String) (b : Binding) : Registry :=
  { r with bindings := fun name => if targets.contains name then some b else r.bindings name }

def allocate (r : Registry) (targets : List String) : CommandId × Registry :=
  match targets with
  | handle :: _ =>
      if r.has (.handle handle) then
        (.anonymous r.nextAnonymous, { r with nextAnonymous := r.nextAnonymous + 1 })
      else (.handle handle, r)
  | [] => (.anonymous r.nextAnonymous, { r with nextAnonymous := r.nextAnonymous + 1 })

def addCommand (r : Registry) (targets : List String) (name : String) (parent : Option CommandId)
    (inherits : List CommandId) (line : Nat) : CommandId × Registry :=
  let (id, r) := r.allocate targets
  let commands := r.commands.insert id ⟨id, name, parent, inherits, line⟩
  (id, { r with commands := commands }.bind targets (.command id))

def addArgument (r : Registry) (a : Argument) : Registry :=
  { r with arguments := r.arguments ++ [a] }

end Registry

namespace Registering

def commandNamed (name : String) (line : Nat) : Registering CommandId := fun r =>
  match r.bindings name with
  | some (.command id) => .ok (id, r)
  | _ => .error (.unknownHandle name line)

def ownerNamed (name : String) (line : Nat) : Registering CommandId := fun r =>
  match r.bindings name with
  | some b => .ok (b.owner, r)
  | none => .error (.unknownHandle name line)

mutual

def command : CommandExpr → Registering CommandId
  | .handle name line => commandNamed name line
  | .grouped owner => command owner
  | .refused e => throw e
  | .added group name targets parents line => do
      let owner ← groupOwner group
      let name ← liftM name
      match (← get).child? owner name with
      | some id =>
          modify (·.bind targets (.command id))
          return id
      | none =>
          let inherits ← commands parents
          modifyGet (·.addCommand targets name (some owner) inherits line)

def groupOwner : GroupExpr → Registering CommandId
  | .handle name line => ownerNamed name line
  | .opened owner => command owner
  | .refused e => throw e

def commands : List CommandExpr → Registering (List CommandId)
  | [] => return []
  | e :: es => do
      let id ← command e
      let ids ← commands es
      return id :: ids

end

def step (hints : List Hint) : Step → Registering Unit
  | .parser targets parents line => do
      let inherits ← commands parents
      modify fun r => (r.addCommand targets "" none inherits line).2
  | .subparsers targets owner => do
      let id ← command owner
      modify (·.bind targets (.group id))
  | .argumentGroup targets owner => do
      let id ← command owner
      modify (·.bind targets (.command id))
  | .command e => do
      let _ ← command e
  | .argument owner content lastLine => do
      let id ← command owner
      let d ← liftM content
      modify (·.addArgument
        ⟨id, d.literals, d.options, Hint.onLine hints lastLine, lastLine⟩)

def steps (hints : List Hint) : List Step → Registering Unit
  | [] => return ()
  | s :: ss => do
      step hints s
      steps hints ss

end Registering

namespace Registry

def hasChildren (r : Registry) (id : CommandId) : Bool :=
  r.commands.values.any (·.parent == some id)

def isInherited (r : Registry) (id : CommandId) : Bool :=
  r.commands.values.any (·.inherits.contains id)

def topLevel (r : Registry) : List Command :=
  r.commands.values.filter (·.parent.isNone)

def root? (r : Registry) : Option CommandId :=
  ((r.topLevel.find? fun c => r.hasChildren c.id).or
    ((r.topLevel.reverse.find? fun c => !r.isInherited c.id).or r.topLevel.getLast?)).map (·.id)

def tree (r : Registry) : Except ExtractionError CommandTree :=
  match r.root? with
  | some root => .ok ⟨root, r.commands, r.arguments⟩
  | none => .error .noParser

end Registry

namespace CommandTree

def ofSteps (hints : List Hint) (steps : List Step) :
    Except ExtractionError CommandTree := do
  let (_, r) ← (Registering.steps hints steps).run .empty
  r.tree

def ofNode (o : ExtractionOptions) (hints : List Hint) (n : Node) :
    Except ExtractionError CommandTree :=
  ofSteps hints (n.steps o)

def ofSource (o : ExtractionOptions) (source : List Char) : Except ExtractionError CommandTree :=
  match Node.ofSource source with
  | .error fault => .error (.malformed fault)
  | .ok n => ofNode o (Hint.scan o.marker (Comment.ofSource source)) n

end CommandTree

end CliCompletion
