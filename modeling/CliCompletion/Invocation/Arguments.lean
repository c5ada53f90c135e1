import CliCompletion.Invocation

namespace CliCompletion

inductive ValueFlag where
  | toolName
  | output
  | format
  | config
  | marker
  | ignored
  deriving DecidableEq, Repr

inductive Switch where
  | quiet
  | ignoreConfig
  | debug
  | help
  | summary
  | version
  deriving DecidableEq, Repr

inductive Flag where
  | value (f : ValueFlag)
  | switch (f : Switch)
  deriving DecidableEq, Repr

namespace Flag

def ofName : String → Option Flag
  | "cliname" => some (value .toolName)
  | "output" => some (value .output)
  | "quiet" => some (switch .quiet)
  | "format" => some (value .format)
  | "config" => some (value .config)
  | "no-config" => some (switch .ignoreConfig)
  | "debug" => some (switch .debug)
  | "marker" => some (value .marker)
  | "ignore-keyword" => some (value .ignored)
  | "help" => some (switch .help)
  | "version" => some (switch .version)
  | _ => none

def ofLetter : Char → Option Flag
  | 'o' => some (value .output)
  | 'q' => some (switch .quiet)
  | 'h' => some (switch .summary)
  | 'V' => some (switch .version)
  | _ => none

end Flag

inductive Item where
  | source (name : String)
  | valued (f : ValueFlag) (value : Option String) (attached : Bool)
  | switched (f : Switch)
  deriving DecidableEq, Repr

namespace Item

def isDashed : List Char → Bool
  | '-' :: _ :: _ => true
  | _ => false

structure Reading where
  items : List Item
  waiting : Option ValueFlag
  fault : Option Halt
  deriving DecidableEq, Repr

namespace Reading

def stop (h : Halt) : Reading :=
  ⟨[], none, some h⟩

def item (i : Item) : Reading :=
  ⟨[i], none, none⟩

def wait (f : ValueFlag) : Reading :=
  ⟨[], some f, none⟩

end Reading

def ofLong (s : List Char) : Reading :=
  let (name, value) := s.span (· != '=')
  match Flag.ofName (String.ofList name), value with
  | none, _ => .stop .unknownArgument
  | some (.value f), [] => .wait f
  | some (.value f), _ :: v => .item (.valued f (some (String.ofList v)) true)
  | some (.switch f), [] => .item (.switched f)
  | some (.switch _), _ :: _ => .stop .unwantedValue

def withoutEquals : List Char → List Char
  | '=' :: s => s
  | s => s

def ofLetters : List Char → Reading
  | [] => ⟨[], none, none⟩
  | c :: s =>
      match Flag.ofLetter c with
      | none => .stop .unknownArgument
      | some (.switch f) =>
          let r := ofLetters s
          { r with items := .switched f :: r.items }
      | some (.value f) =>
          if s.isEmpty then .wait f
          else .item (.valued f (some (String.ofList (withoutEquals s))) true)

def ofDashed : List Char → Reading
  | '-' :: '-' :: s => ofLong s
  | '-' :: s => ofLetters s
  | _ => ⟨[], none, none⟩

def missing : Option ValueFlag → List Item
  | some f => [valued f none false]
  | none => []

def scan : Option ValueFlag → List String → List Item × Option Halt
  | waiting, [] => (missing waiting, none)
  | waiting, arg :: args =>
      if arg == "--" then (missing waiting ++ args.map source, none)
      else if isDashed arg.toList then
        let r := ofDashed arg.toList
        match r.fault with
        | some h => (missing waiting ++ r.items, some h)
        | none =>
            let (items, fault) := scan r.waiting args
            (missing waiting ++ r.items ++ items, fault)
      else
        let (items, fault) := scan none args
        match waiting with
        | some f => (valued f (some arg) false :: items, fault)
        | none => (source arg :: items, fault)

def isSource : Item → Bool
  | source _ => true
  | _ => false

-- The items that are settled where a command line breaks off: all but a flag that the next argument
-- could have closed, or the sources at the end.
def settled (items : List Item) : List Item :=
  match items.reverse with
  | valued _ _ false :: before => before.reverse
  | before => (before.dropWhile isSource).reverse

end Item

namespace Invocation

def once {α : Type} (before : Option α) (value : Except Halt α) : Except Halt (Option α) :=
  if before.isSome then .error .conflict else value.map some

def onceOn (before : Bool) : Except Halt Bool :=
  if before then .error .conflict else .ok true

def pathValue (s : String) : Except Halt Path :=
  if s.isEmpty then .error .invalidValue else .ok ⟨s⟩

def formatValue (s : String) : Except Halt OutputFormat :=
  match OutputFormat.ofName s with
  | some f => .ok f
  | none => .error .invalidValue

def applyValue (i : Invocation) (f : ValueFlag) (v : String) : Except Halt Invocation :=
  match f with
  | .toolName => do return { i with toolName := ← once i.toolName (.ok v) }
  | .output => do return { i with output := ← once i.output (pathValue v) }
  | .format => do return { i with format := ← once i.format (formatValue v) }
  | .config => do return { i with config := ← once i.config (pathValue v) }
  | .marker => do return { i with marker := ← once i.marker (.ok v) }
  | .ignored => .ok { i with ignored := i.ignored ++ [v] }

def applySwitch (i : Invocation) : Switch → Except Halt Invocation
  | .quiet => do return { i with quiet := ← onceOn i.quiet }
  | .ignoreConfig => do return { i with ignoresConfig := ← onceOn i.ignoresConfig }
  | .debug => do return { i with debug := ← onceOn i.debug }
  | .help | .summary => .error .help
  | .version => .error .version

def apply (i : Invocation) : Item → Except Halt Invocation
  | .source name => do return { i with sources := i.sources ++ [← pathValue name] }
  | .valued f (some v) _ => i.applyValue f v
  | .valued _ none _ => .error .invalidValue
  | .switched f => i.applySwitch f

def ofArgs (args : List String) : Except Halt Invocation :=
  match Item.scan none args with
  | (items, some h) => do
      let _ ← (Item.settled items).foldlM apply .empty
      throw h
  | (items, none) => do
      let i ← items.foldlM apply .empty
      if i.ignoresConfig && i.config.isSome then throw .conflict
      return i

def asksSummary (args : List String) : Bool :=
  let asked := (Item.scan none args).1.find? fun i =>
    i == .switched .help || i == .switched .summary
  asked == some (.switched .summary)

end Invocation

end CliCompletion
