import CliCompletion.Invocation.Arguments

namespace CliCompletion

namespace OutputFormat

def all : List OutputFormat :=
  [directives, operations, json]

def description : OutputFormat → Option String
  | directives => some "`add_positional_argument` / `add_option_argument` lines"
  | operations => some "`pos` / `opt` operation lines"
  | json => none

end OutputFormat

namespace Help

def about : String :=
  "Generate bash completion directives from Python argparse scripts without running them"

def usage : String :=
  "Usage: argcomp [OPTIONS] [FILE]..."

structure Entry where
  form : String
  words : String
  values : List OutputFormat

def sources : Entry :=
  ⟨"[FILE]...", "Python sources, concatenated in order ('-' reads stdin)", []⟩

def options (ofHelp : String) : List Entry := [
  ⟨"    --cliname <NAME>", "Tool name used as the root of every path", []⟩,
  ⟨"-o, --output <OUTPUT>", "Write output to file (in addition to stdout)", []⟩,
  ⟨"-q, --quiet", "Suppress output", []⟩,
  ⟨"    --format <FORMAT>", "Output format [default: directives]", OutputFormat.all⟩,
  ⟨"    --config <PATH>", "Config file (default: nearest argcomp.toml)", []⟩,
  ⟨"    --no-config", "Ignore any config file", []⟩,
  ⟨"    --debug", "Enable debug logging", []⟩,
  ⟨"    --marker <WORD>",
    "Keyword that starts completion hints in trailing comments [default: bashcompletils]", []⟩,
  ⟨"    --ignore-keyword <NAME>",
    "Keyword argument to skip instead of requiring a literal value (repeatable)", []⟩,
  ⟨"-h, --help", ofHelp, []⟩,
  ⟨"-V, --version", "Print version", []⟩]

def indent (n : Nat) (s : String) : String :=
  String.ofList (List.replicate n ' ') ++ s

def describedValue (f : OutputFormat) : String :=
  indent 10 ("- " ++ f.name ++ (f.description.elim "" (": " ++ ·)))

namespace Entry

def summaryLine (width : Nat) (e : Entry) : String :=
  let values := ", ".intercalate (e.values.map OutputFormat.name)
  indent 2 e.form ++ indent (width - e.form.length + 2) e.words ++
    if e.values.isEmpty then "" else " [possible values: " ++ values ++ "]"

def paragraph (e : Entry) : List String :=
  [indent 2 e.form, indent 10 e.words] ++
    if e.values.isEmpty then []
    else ["", indent 10 "Possible values:"] ++ e.values.map describedValue

end Entry

def page (arguments options : List String) : String :=
  String.join (([about, "", usage, "", "Arguments:"] ++ arguments ++ ["", "Options:"] ++
    options).map (· ++ "\n"))

def summary : String :=
  let entries := options "Print help (see more with '--help')"
  let width := (entries.map (·.form.length)).foldl max 0
  page [sources.summaryLine sources.form.length] (entries.map (·.summaryLine width))

def full : String :=
  page sources.paragraph
    (List.intercalate [""] ((options "Print help (see a summary with '-h')").map Entry.paragraph))

def version : String :=
  "argcomp 0.1.0\n"

def complaint : Halt → String
  | .unknownArgument => "unexpected argument found"
  | .invalidValue => "one of the values isn't valid for an argument"
  | .conflict =>
      "an argument cannot be used with one or more of the other specified arguments"
  | .unwantedValue => "unexpected value for an argument found"
  | .help | .version => ""

def ofHalt (h : Halt) : String :=
  "error: " ++ complaint h ++ "\n\n" ++ usage ++ "\n\nFor more information, try '--help'.\n"

end Help

end CliCompletion
