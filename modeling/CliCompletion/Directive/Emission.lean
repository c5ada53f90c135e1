import CliCompletion.Command.Registry
import CliCompletion.Directive

namespace CliCompletion

def Argument.directive (a : Argument) (path : CommandPath) : Option Directive :=
  if a.isFlag then some (.flag path a.name a.choices)
  else if !a.choices.isEmpty then some (.words path a.choices a.nargs)
  else a.completer.map fun c => .closure path c a.nargs

namespace CommandTree

def path (t : CommandTree) (tool : String) (id : CommandId) : Option CommandPath :=
  (t.ancestry id).map fun names => ⟨tool, names⟩

def rootFirst (t : CommandTree) : List CommandId :=
  t.root :: t.commands.keys.filter (· != t.root)

def enumeration (t : CommandTree) (tool : String) (id : CommandId) : Option Directive :=
  let names := (t.children id).map (·.name)
  if names.isEmpty then none else (t.path tool id).map fun path => .words path names none

def enumerations (t : CommandTree) (tool : String) : List Directive :=
  t.rootFirst.filterMap (t.enumeration tool)

def argumentDirectives (t : CommandTree) (tool : String) (a : Argument) : List Directive :=
  (t.receivers a.owner).filterMap fun id => (t.path tool id).bind a.directive

def directives (t : CommandTree) (tool : String) : List Directive :=
  t.enumerations tool ++ t.arguments.flatMap (t.argumentDirectives tool)

end CommandTree

def Directive.ofSource (o : ExtractionOptions) (tool : String) (source : List Char) :
    Except ExtractionError (List Directive) :=
  (CommandTree.ofSource o source).map fun t => t.directives tool

end CliCompletion
