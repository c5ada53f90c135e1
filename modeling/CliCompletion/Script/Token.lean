import CliCompletion.Script.Node

namespace CliCompletion

inductive TokenKind where
  | word
  | integer
  | float
  | string
  | stringOpen
  | stringPiece
  | stringClose
  | sign
  | newline (indent : Nat)
  | stray
  | finish
  deriving DecidableEq, Repr, Inhabited

structure Token where
  kind : TokenKind
  gap : String
  text : String
  line : Nat
  lastLine : Nat
  trivia : List Node
  deriving Repr, Inhabited

namespace Token

def reserved : List String :=
  ["False", "None", "True", "and", "as", "assert", "break", "class", "continue", "def", "del",
    "elif", "else", "except", "finally", "for", "from", "global", "if", "import", "in", "is",
    "lambda", "nonlocal", "not", "or", "pass", "raise", "return", "try", "while", "with", "yield"]

def isSign (t : Token) (s : String) : Bool :=
  t.kind == .sign && t.text == s

def isWord (t : Token) (s : String) : Bool :=
  t.kind == .word && t.text == s

def isIdentifier (t : Token) : Bool :=
  t.kind == .word && !reserved.contains t.text

def isNewline (t : Token) : Bool :=
  match t.kind with
  | .newline _ => true
  | _ => false

def opensString (t : Token) : Bool :=
  t.kind == .string || t.kind == .stringOpen

def spelling : List Token → String
  | [] => ""
  | t :: ts => ts.foldl (fun s u => s ++ u.gap ++ u.text) t.text

def extent (ts : List Token) : Extent :=
  match ts.head?, ts.getLast? with
  | some first, some last => ⟨spelling ts, first.line, last.lastLine⟩
  | _, _ => ⟨"", 0, 0⟩

end Token

end CliCompletion
