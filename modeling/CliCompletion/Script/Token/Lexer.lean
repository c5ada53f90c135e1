import CliCompletion.Literal.Quoted
import CliCompletion.Script.Comment
import CliCompletion.Script.Token
import CliCompletion.Text.Identifier

namespace CliCompletion

structure OpenQuote where
  mark : Char
  triple : Bool
  raw : Bool
  deriving DecidableEq, Repr

inductive LexMode where
  | bracket
  | text (quote : OpenQuote)
  | field
  | format
  deriving DecidableEq, Repr

-- A script read up to some character. Lists are kept with the latest item first; `lead` is what
-- has been read of the current line, and `indent` counts its indentation until its first token.
structure Lexer where
  line : Nat
  lead : List Char
  gap : List Char
  trivia : List Node
  modes : List LexMode
  indent : Option Nat
  tokens : List Token
  comments : List Comment
  deriving Repr

namespace Lexer

def start : Lexer :=
  ⟨1, [], [], [], [], some 0, [], []⟩

def through (s : Lexer) (cs : List Char) : Lexer :=
  cs.foldl (fun s c =>
    if c = '\n' then { s with line := s.line + 1, lead := [] }
    else { s with lead := c :: s.lead }) s

def skip (s : Lexer) (cs : List Char) : Lexer :=
  { s.through cs with gap := cs.reverse ++ s.gap }

def emit (s : Lexer) (kind : TokenKind) (cs : List Char) : Lexer :=
  let t := s.through cs
  let token : Token :=
    ⟨kind, String.ofList s.gap.reverse, String.ofList cs, s.line, t.line, s.trivia.reverse⟩
  { t with gap := [], trivia := [], tokens := token :: s.tokens }

def push (s : Lexer) (m : LexMode) : Lexer :=
  { s with modes := m :: s.modes }

def pop (s : Lexer) : Lexer :=
  { s with modes := s.modes.tail }

def startLine (s : Lexer) : Lexer :=
  match s.indent with
  | none => s
  | some n => { s.emit (.newline n) [] with indent := none }

def finish (s : Lexer) : Lexer :=
  ({ s with indent := some 0 }.startLine).emit .finish []

def isSpace (c : Char) : Bool :=
  c == ' ' || ('\t' ≤ c && c ≤ '\r') || c == '\uFEFF' || c == '\u2060' || c == '\u200B'

def indentAfter (n : Nat) (c : Char) : Nat :=
  if c = ' ' then n + 1
  else if c = '\t' then n + 8
  else if c = '\r' ∨ c = '\x0c' then 0
  else n

def lineJoin : List Char → Option (List Char)
  | '\n' :: _ => some ['\\', '\n']
  | '\r' :: '\n' :: _ => some ['\\', '\r', '\n']
  | _ => none

def opening (cs : List Char) : Option (List Char × List Char × List Char) :=
  let marks := cs.takeWhile Quoted.isMark
  let rest := cs.dropWhile Quoted.isMark
  (Quoted.delimiter rest).map fun quote => (marks, quote, rest.drop quote.length)

def closes (mark : Char) (triple : Bool) (cs : List Char) : Bool :=
  List.isPrefixOf (if triple then [mark, mark, mark] else [mark]) cs

def throughClose (mark : Char) (triple : Bool) : List Char → Option (List Char × List Char)
  | [] => none
  | '\\' :: '\r' :: '\n' :: s =>
      (throughClose mark triple s).map fun p => ('\\' :: '\r' :: '\n' :: p.1, p.2)
  | '\\' :: c :: s => (throughClose mark triple s).map fun p => ('\\' :: c :: p.1, p.2)
  | c :: s =>
      if closes mark triple (c :: s) then
        if triple then some ([mark, mark, mark], s.drop 2) else some ([mark], s)
      else if c = '\n' ∧ !triple then none
      else (throughClose mark triple s).map fun p => (c :: p.1, p.2)

-- The literal text of a formatted string up to a replacement field, the closing quotes or a line
-- break that the string may not hold, and what follows. Within the name of a character braces are
-- text.
def piece (q : OpenQuote) : Bool → List Char → List Char × List Char
  | _, [] => ([], [])
  | true, c :: s =>
      let p := piece q (c != '\x7d') s
      (c :: p.1, p.2)
  | false, '\x7b' :: '\x7b' :: s =>
      let p := piece q false s
      ('\x7b' :: '\x7b' :: p.1, p.2)
  | false, '\x7d' :: '\x7d' :: s =>
      let p := piece q false s
      ('\x7d' :: '\x7d' :: p.1, p.2)
  | false, '\\' :: c :: s =>
      if c = '\x7b' ∨ c = '\x7d' then
        let p := piece q false (c :: s)
        ('\\' :: p.1, p.2)
      else
        let p := piece q (c == 'N' && !q.raw && s.head? == some '\x7b') s
        ('\\' :: c :: p.1, p.2)
  | false, c :: s =>
      if c = '\x7b' ∨ c = '\x7d' ∨ closes q.mark q.triple (c :: s) ∨ (c = '\n' ∧ !q.triple) then
        ([], c :: s)
      else
        let p := piece q false s
        (c :: p.1, p.2)

def digitRun (isDigit : Char → Bool) (cs : List Char) : List Char × List Char :=
  (cs.takeWhile fun c => isDigit c || c == '_', cs.dropWhile fun c => isDigit c || c == '_')

def suffix (letters : List Char) : List Char → List Char × List Char
  | c :: s => if letters.contains c then ([c], s) else ([], c :: s)
  | [] => ([], [])

def fraction : List Char → List Char × List Char
  | '.' :: c :: s =>
      if c.isDigit then
        let (ds, rest) := digitRun Char.isDigit (c :: s)
        ('.' :: ds, rest)
      else (['.'], c :: s)
  | '.' :: s => (['.'], s)
  | s => ([], s)

def exponent : List Char → List Char × List Char
  | c :: d :: s =>
      if c = 'e' ∨ c = 'E' then
        if d.isDigit then
          let (ds, rest) := digitRun Char.isDigit (d :: s)
          (c :: ds, rest)
        else if (d = '+' ∨ d = '-') ∧ (s.head?.any Char.isDigit) then
          let (ds, rest) := digitRun Char.isDigit s
          (c :: d :: ds, rest)
        else ([], c :: d :: s)
      else ([], c :: d :: s)
  | s => ([], s)

def isBaseDigit (base : Char) (c : Char) : Bool :=
  if base = 'x' then (Text.hexDigit c).isSome
  else if base = 'o' then (Text.octalDigit c).isSome
  else c == '0' || c == '1'

def numeral (cs : List Char) : TokenKind × List Char × List Char :=
  let based : Option (List Char × List Char) := match cs with
    | '0' :: b :: s =>
        let base := b.toLower
        if base = 'x' ∨ base = 'o' ∨ base = 'b' then
          let (ds, rest) := digitRun (isBaseDigit base) s
          if ds.isEmpty then none
          else
            let (l, rest) := suffix ['l', 'L'] rest
            some ('0' :: b :: ds ++ l, rest)
        else none
    | _ => none
  match based with
  | some (text, rest) => (.integer, text, rest)
  | none =>
      let (whole, rest) := digitRun Char.isDigit cs
      let (part, rest) := fraction rest
      let (power, rest) := exponent rest
      if part.isEmpty && power.isEmpty then
        let (l, rest) := suffix ['l', 'L', 'j', 'J'] rest
        (.integer, whole ++ l, rest)
      else
        let (l, rest) := suffix ['j', 'J'] rest
        (.float, whole ++ part ++ power ++ l, rest)

def longSigns : List (List Char) :=
  ["**=", "//=", ">>=", "<<=", "...", "**", "//", "<<", ">>", "<=", ">=", "==", "!=", "<>", "->",
    ":=", "+=", "-=", "*=", "/=", "%=", "@=", "&=", "|=", "^="].map String.toList

def shortSigns : List Char :=
  "+-*/%@&|^~<>()[]\x7b\x7d,:.;=".toList

def sign (s : Lexer) (c : Char) (rest : List Char) : Lexer × List Char :=
  match longSigns.find? fun l => l.isPrefixOf (c :: rest) with
  | some l => (s.emit .sign l, (c :: rest).drop l.length)
  | none =>
      let t := s.emit (if shortSigns.contains c then .sign else .stray) [c]
      if c = '(' ∨ c = '[' ∨ c = '\x7b' then (t.push .bracket, rest)
      else if (c = ')' ∨ c = ']' ∨ c = '\x7d') ∧ s.modes.head? = some .bracket then (t.pop, rest)
      else (t, rest)

def string (s : Lexer) (marks quote rest : List Char) : Lexer × List Char :=
  let mark := quote.headD '"'
  let triple := quote.length == 3
  let style := Quoted.Style.ofMarks marks
  if style.formatted then
    ((s.emit .stringOpen (marks ++ quote)).push (.text ⟨mark, triple, style.raw⟩), rest)
  else match throughClose mark triple rest with
    | some (body, rest) => (s.emit .string (marks ++ quote ++ body), rest)
    | none => (s.emit .stray (marks ++ quote), rest)

def code (s : Lexer) (c : Char) (rest : List Char) : Lexer × List Char :=
  match opening (c :: rest) with
  | some (marks, quote, rest) => s.string marks quote rest
  | none =>
      if Text.startsIdentifier c then
        (s.emit .word (c :: rest.takeWhile Text.continuesIdentifier),
          rest.dropWhile Text.continuesIdentifier)
      else if c.isDigit || (c == '.' && rest.head?.any Char.isDigit) then
        let (kind, text, rest) := numeral (c :: rest)
        (s.emit kind text, rest)
      else s.sign c rest

def codeStep (s : Lexer) (c : Char) (rest : List Char) : Lexer × List Char :=
  if c = '\n' then
    (if s.modes.isEmpty then { s.skip [c] with indent := some 0 } else s.skip [c], rest)
  else if isSpace c then
    ({ s.skip [c] with indent := s.indent.map (indentAfter · c) }, rest)
  else if c = '#' then
    let text := c :: rest.takeWhile (· != '\n')
    let node : Node := .comment ⟨String.ofList text, s.line, s.line⟩
    ({ s.skip text with
        trivia := node :: s.trivia
        comments := ⟨s.line, s.lead.reverse, text⟩ :: s.comments },
      rest.dropWhile (· != '\n'))
  else match if c = '\\' then lineJoin rest else none with
    | some text =>
        let node : Node := .join ⟨String.ofList text, s.line, s.line + 1⟩
        ({ s.skip text with trivia := node :: s.trivia }, rest.drop (text.length - 1))
    | none => s.startLine.code c rest

def fieldStep (s : Lexer) (c : Char) (rest : List Char) : Lexer × List Char :=
  if c = ':' then ((s.emit .sign [c]).pop.push .format, rest)
  else if c = '\x7d' then ((s.emit .sign [c]).pop, rest)
  else if c = '!' ∧ rest.head? ≠ some '=' then (s.emit .sign [c], rest)
  else s.codeStep c rest

def formatStep (s : Lexer) (c : Char) (rest : List Char) : Lexer × List Char :=
  if c = '\x7b' then ((s.emit .sign [c]).push .field, rest)
  else if c = '\x7d' then ((s.emit .sign [c]).pop, rest)
  else
    let isText := fun d : Char => d != '\x7b' && d != '\x7d'
    (s.emit .stringPiece (c :: rest.takeWhile isText), rest.dropWhile isText)

def textStep (s : Lexer) (q : OpenQuote) (c : Char) (rest : List Char) : Lexer × List Char :=
  match piece q false (c :: rest) with
  | ([], _) =>
      if closes q.mark q.triple (c :: rest) then
        let n := if q.triple then 3 else 1
        ((s.emit .stringClose (List.replicate n q.mark)).pop, (c :: rest).drop n)
      else if c = '\x7b' then ((s.emit .sign [c]).push .field, rest)
      else ((s.emit .stray [c]).pop, rest)
  | (text, rest) => (s.emit .stringPiece text, rest)

def step (s : Lexer) (c : Char) (rest : List Char) : Lexer × List Char :=
  match s.modes.head? with
  | some (.text q) => s.textStep q c rest
  | some .field => s.fieldStep c rest
  | some .format => s.formatStep c rest
  | _ => s.codeStep c rest

def run : Nat → Lexer → List Char → Lexer
  | 0, s, _ => s
  | _ + 1, s, [] => s.finish
  | n + 1, s, c :: cs =>
      let (s, cs) := s.step c cs
      run n s cs

def read (source : List Char) : Lexer :=
  run (source.length + 1) start source

end Lexer

def Token.ofSource (source : List Char) : List Token :=
  (Lexer.read source).tokens.reverse

def Comment.ofSource (source : List Char) : List Comment :=
  (Lexer.read source).comments.reverse

end CliCompletion
