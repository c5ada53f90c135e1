import CliCompletion.Script.Grammar

namespace CliCompletion

inductive ExtractionError where
  | unsupported (context kind text : String) (line : Nat)
  | unknownHandle (handle : String) (line : Nat)
  | missingName (call : String) (line : Nat)
  | nameNotText (call : String) (line : Nat)
  | noParser
  | malformed (fault : SyntaxFault)
  deriving DecidableEq, Repr

namespace ExtractionError

def message : ExtractionError → String
  | unsupported context kind text _ =>
      "unsupported " ++ kind ++ " expression `" ++ text ++ "` in " ++ context
  | unknownHandle handle _ => "`" ++ handle ++ "` is not a known parser or sub-parser group"
  | missingName call _ => call ++ " call has no name argument"
  | nameNotText call _ => call ++ " call name must be a string literal"
  | noParser => "no ArgumentParser assignment found"
  | malformed fault => "syntax error near `" ++ fault.text ++ "`"

def line? : ExtractionError → Option Nat
  | unsupported _ _ _ line => some line
  | unknownHandle _ line => some line
  | missingName _ line => some line
  | nameNotText _ line => some line
  | noParser => none
  | malformed fault => some fault.line

end ExtractionError

def Node.unsupported (n : Node) (context : String) : ExtractionError :=
  .unsupported context n.kindName n.text n.line

end CliCompletion
