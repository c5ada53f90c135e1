import CliCompletion.Directive.Format
import CliCompletion.Files.Path

namespace CliCompletion

structure Invocation where
  sources : List Path
  toolName : Option String
  output : Option Path
  quiet : Bool
  format : Option OutputFormat
  config : Option Path
  ignoresConfig : Bool
  debug : Bool
  marker : Option String
  ignored : List String
  deriving DecidableEq, Repr

def Invocation.empty : Invocation :=
  ⟨[], none, none, false, none, none, false, false, none, []⟩

inductive Halt where
  | unknownArgument
  | invalidValue
  | conflict
  | unwantedValue
  | help
  | version
  deriving DecidableEq, Repr

end CliCompletion
