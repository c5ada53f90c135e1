import CliCompletion.Command.Expression
import CliCompletion.Config
import CliCompletion.Host
import CliCompletion.Invocation

namespace CliCompletion

structure Settings where
  toolName : String
  sources : List Path
  output : Option Path
  format : OutputFormat
  quiet : Bool
  extraction : ExtractionOptions
  deriving DecidableEq, Repr

inductive SettingsError where
  | unreadable (path : Path) (fault : FileFault)
  | malformed (path : Path)
  | missingToolName
  | missingSources
  deriving DecidableEq, Repr

namespace SettingsError

def message : SettingsError → String
  | unreadable path fault => "failed to read config file " ++ path.text ++ ": " ++ fault.message
  | malformed path => "failed to parse config file " ++ path.text
  | missingToolName =>
      "no tool name given (pass --cliname or set `cliname` in argcomp.toml)"
  | missingSources =>
      "no source files given (pass FILE arguments or set `sources` in argcomp.toml)"

end SettingsError

def Path.standardInput : Path :=
  ⟨"-"⟩

def Path.rebase (base p : Path) : Path :=
  if p.isAbsolute || p == standardInput then p else base.join p

def Config.fileName : Path :=
  ⟨"argcomp.toml"⟩

def Config.candidates (directory : Path) : List Path :=
  directory.ancestors.map fun d => d.join fileName

namespace Settings

def merge (i : Invocation) (c : Config) (base : Path) : Except SettingsError Settings :=
  match i.toolName.or c.toolName with
  | none => .error .missingToolName
  | some toolName =>
      let sources :=
        if i.sources.isEmpty then (c.sources.getD []).map base.rebase else i.sources
      if sources.isEmpty then .error .missingSources
      else .ok {
        toolName
        sources
        output := i.output.or (c.output.map base.rebase)
        format := (i.format.or c.format).getD .directives
        quiet := i.quiet || c.quiet.getD false
        extraction := {
          marker := (i.marker.or c.marker).getD ExtractionOptions.defaultMarker
          ignored := if i.ignored.isEmpty then c.ignored.getD [] else i.ignored
        }
      }

variable {m : Type → Type} [Monad m] [Host m]

def findConfig (directory : Path) : m (Option Path) :=
  (Config.candidates directory).findM? Host.isFile

def configPath (i : Invocation) : m (Option Path) :=
  if i.ignoresConfig then return none
  else match i.config with
    | some p => return some p
    | none => do findConfig (← Host.directory)

def loadConfig (p : Path) : m (Except SettingsError Config) := do
  match ← Host.read p with
  | .error fault => return .error (.unreadable p fault)
  | .ok text =>
      match Config.ofText text with
      | some c => return .ok c
      | none => return .error (.malformed p)

def resolve (i : Invocation) : m (Except SettingsError Settings) := do
  match ← configPath i with
  | none => return merge i .empty ⟨""⟩
  | some p => return (← loadConfig p).bind fun c => merge i c (p.parent.getD ⟨""⟩)

end Settings

end CliCompletion
