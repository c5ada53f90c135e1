import CliCompletion.Directive.Emission
import CliCompletion.Invocation.Help
import CliCompletion.Settings
import CliCompletion.Source

namespace CliCompletion

inductive RunError where
  | settings (error : SettingsError)
  | unreadable (path : Path) (fault : FileFault)
  | unreadableInput (fault : FileFault)
  | extraction (origin : String) (error : ExtractionError)
  | unwritable (path : Path) (fault : FileFault)
  deriving DecidableEq, Repr

namespace RunError

def message : RunError → String
  | settings error => error.message
  | unreadable path fault => "failed to read file " ++ path.text ++ ": " ++ fault.message
  | unreadableInput fault => "failed to read stdin: " ++ fault.message
  | extraction origin error => origin ++ ": " ++ error.message
  | unwritable path fault => "failed to write " ++ path.text ++ ": " ++ fault.message

def located (u : SourceUnit) (e : ExtractionError) : RunError :=
  match e.line?.bind u.locate with
  | some (name, line) => extraction (name ++ ":" ++ toString line) e
  | none => extraction u.describe e

end RunError

namespace Program

variable {m : Type → Type} [Monad m] [Host m]

def readSource (u : SourceUnit) (p : Path) : ExceptT RunError m SourceUnit := do
  if p == Path.standardInput then
    match ← (Host.readInput : m _) with
    | .ok text => return u.push "<stdin>" text
    | .error fault => throw (.unreadableInput fault)
  else
    match ← (Host.read p : m _) with
    | .ok text => return u.push p.text text
    | .error fault => throw (.unreadable p fault)

def readSources (ps : List Path) : ExceptT RunError m SourceUnit :=
  ps.foldlM readSource .empty

def textOf (s : Settings) (u : SourceUnit) : Except RunError String :=
  match Directive.ofSource s.extraction s.toolName u.text.toList with
  | .ok ds => .ok (s.format.render ds)
  | .error e => .error (.located u e)

def deliver (s : Settings) (text : String) : ExceptT RunError m Unit := do
  if !s.quiet then
    (Host.print text : m _)
  match s.output with
  | none => return
  | some p =>
      match ← (Host.write p text : m _) with
      | .ok () => return
      | .error fault => throw (.unwritable p fault)

def produce (i : Invocation) : ExceptT RunError m Unit := do
  match ← (Settings.resolve i : m _) with
  | .error e => throw (.settings e)
  | .ok s =>
      let u ← readSources s.sources
      match textOf s u with
      | .error e => throw e
      | .ok text => deliver s text

def halt (asksSummary : Bool) : Halt → m Nat
  | .help => do
      Host.print (if asksSummary then Help.summary else Help.full)
      return 0
  | .version => do
      Host.print Help.version
      return 0
  | h => do
      Host.complain (Help.ofHalt h)
      return 2

def run (args : List String) : m Nat := do
  match Invocation.ofArgs args with
  | .error h => halt (Invocation.asksSummary args) h
  | .ok i =>
      match ← (produce i).run with
      | .ok () => return 0
      | .error e =>
          Host.complain ("error: " ++ e.message ++ "\n")
          return 1

end Program

end CliCompletion
