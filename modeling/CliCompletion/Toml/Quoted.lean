import CliCompletion.Text.Numbered
import CliCompletion.Toml.Reader

namespace CliCompletion.Toml.Quoted

def close (escapes : Bool) (q : Char) : Bool → List Char → Option (List Char × List Char)
  | _, [] => none
  | guarded, c :: s =>
      if c == '\n' then none
      else if c == q && !guarded then some ([], s)
      else (close escapes q (escapes && c == '\\' && !guarded) s).map fun p => (c :: p.1, p.2)

-- As `close`, for three quotes. Of more than three at the end, up to two belong to the text.
def closeThree (escapes : Bool) (q : Char) : Bool → List Char → Option (List Char × List Char)
  | _, [] => none
  | guarded, c :: s =>
      if c == q && !guarded && [q, q].isPrefixOf s then
        match s.drop 2 with
        | d :: e :: t =>
            if d == q && e == q then some ([q, q], t)
            else if d == q then some ([q], e :: t)
            else some ([], d :: e :: t)
        | [d] => if d == q then some ([q], []) else some ([], [d])
        | [] => some ([], [])
      else (closeThree escapes q (escapes && c == '\\' && !guarded) s).map fun p =>
        (c :: p.1, p.2)

def numbered (digits : List Char) : Option Char :=
  (Text.hex digits.length 0 digits).bind fun p => Text.scalar p.1

def lettered : Char → Option Char
  | 'b' => some '\x08'
  | 't' => some '\t'
  | 'n' => some '\n'
  | 'f' => some '\x0c'
  | 'r' => some '\r'
  | '"' => some '"'
  | '\\' => some '\\'
  | _ => none

def unescape : Bool → List Char → Option (List Char)
  | _, [] => some []
  | _, '\\' :: 'u' :: a :: b :: c :: d :: s => do
      return (← numbered [a, b, c, d]) :: (← unescape false s)
  | _, '\\' :: 'U' :: a :: b :: c :: d :: e :: f :: g :: h :: s => do
      return (← numbered [a, b, c, d, e, f, g, h]) :: (← unescape false s)
  | _, '\\' :: c :: s =>
      if ((c :: s).dropWhile Reader.isBlank).head? == some '\n' then unescape true s
      else do return (← lettered c) :: (← unescape false s)
  | skipping, c :: s =>
      if skipping && (Reader.isBlank c || c == '\n') then unescape true s
      else if c == '\\' then none
      else (unescape false s).map (c :: ·)

def dropFirstBreak : List Char → List Char
  | '\n' :: s => s
  | '\r' :: '\n' :: s => s
  | s => s

def ofBody (escapes : Bool) (body : List Char) : Reader String :=
  match if escapes then unescape false body else some body with
  | some s => return String.ofList s
  | none => Reader.fail

def single (escapes : Bool) (q : Char) : Reader String := do
  match close escapes q false (← Reader.rest) with
  | some (body, s) => Reader.skipTo s; ofBody escapes body
  | none => Reader.fail

def triple (escapes : Bool) (q : Char) : Reader String := do
  match closeThree escapes q false (dropFirstBreak (← Reader.rest)) with
  | some (body, s) => Reader.skipTo s; ofBody escapes body
  | none => Reader.fail

end CliCompletion.Toml.Quoted
