import CliCompletion.Text.Blank

namespace CliCompletion

structure Comment where
  line : Nat
  lead : List Char
  text : List Char
  deriving DecidableEq, Repr, Inhabited

def Comment.isTrailing (c : Comment) : Bool :=
  c.lead.any fun ch => !Text.isBlank ch

end CliCompletion
