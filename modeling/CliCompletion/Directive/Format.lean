import CliCompletion.Directive
import CliCompletion.Json

namespace CliCompletion

inductive OutputFormat where
  | directives
  | operations
  | json
  deriving DecidableEq, Repr

namespace OutputFormat

def name : OutputFormat → String
  | directives => "directives"
  | operations => "operations"
  | json => "json"

def ofName : String → Option OutputFormat
  | "directives" => some directives
  | "operations" => some operations
  | "json" => some json
  | _ => none

end OutputFormat

namespace Directive

def inQuotes (s : String) : String :=
  "\"" ++ s ++ "\""

def joined (ws : List String) : String :=
  " ".intercalate ws

def commandLine : Directive → String
  | words path ws _ =>
      "add_positional_argument " ++ inQuotes path.text ++ " " ++ inQuotes (joined ws)
  | closure path completer _ =>
      "add_positional_argument " ++ inQuotes path.text ++ " --closure=" ++
        inQuotes completer.function
  | flag path name _ => "add_option_argument " ++ inQuotes path.text ++ " " ++ inQuotes name

def setting (name : String) : Option String → String
  | some value => " " ++ name ++ "=" ++ inQuotes value
  | none => ""

def operationLine : Directive → String
  | words path ws nargs =>
      "pos" ++ setting "-p" path.relative ++ setting "--choices" (some (joined ws)) ++
        setting "--nargs" nargs
  | closure path completer nargs =>
      "pos" ++ setting "-p" path.relative ++ setting "--closure" (some completer.function) ++
        setting "--nargs" nargs
  | flag path name choices =>
      "opt" ++ setting "-p" path.relative ++ " " ++ inQuotes name ++
        setting "--choices" (if choices.isEmpty then none else some (joined choices))

def field (name : String) (value : Option String) : List (String × Json) :=
  match value with
  | some s => [(name, .text s)]
  | none => []

def texts (ws : List String) : Json :=
  .array (ws.map .text)

def document : Directive → Json
  | words path ws nargs =>
      .object ([("kind", .text "positional"), ("path", .text path.text), ("words", texts ws)] ++
        field "nargs" nargs)
  | closure path completer nargs =>
      .object ([("kind", .text "closure"), ("path", .text path.text),
        ("completer", .text completer.function)] ++ field "nargs" nargs)
  | flag path name choices =>
      .object ([("kind", .text "option"), ("path", .text path.text), ("flag", .text name)] ++
        if choices.isEmpty then [] else [("choices", texts choices)])

def lines (line : Directive → String) (ds : List Directive) : String :=
  String.join (ds.map fun d => line d ++ "\n")

end Directive

def OutputFormat.render (f : OutputFormat) (ds : List Directive) : String :=
  match f with
  | directives => Directive.lines Directive.commandLine ds
  | operations => Directive.lines Directive.operationLine ds
  | json => (Json.array (ds.map Directive.document)).pretty 0 ++ "\n"

end CliCompletion
