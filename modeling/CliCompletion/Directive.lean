import CliCompletion.Hint

namespace CliCompletion

structure CommandPath where
  tool : String
  names : List String
  deriving DecidableEq, Repr

namespace CommandPath

def segments (p : CommandPath) : List String :=
  p.tool :: p.names

def text (p : CommandPath) : String :=
  ".".intercalate p.segments

def relative (p : CommandPath) : Option String :=
  if p.names.isEmpty then none else some (".".intercalate p.names)

end CommandPath

inductive Directive where
  | words (path : CommandPath) (words : List String) (nargs : Option String)
  | closure (path : CommandPath) (completer : Completer) (nargs : Option String)
  | flag (path : CommandPath) (flag : String) (choices : List String)
  deriving DecidableEq, Repr

def Directive.path : Directive → CommandPath
  | words path _ _ => path
  | closure path _ _ => path
  | flag path _ _ => path

end CliCompletion
