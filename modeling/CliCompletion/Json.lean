namespace CliCompletion

inductive Json where
  | text (s : String)
  | array (items : List Json)
  | object (fields : List (String × Json))
  deriving Repr

namespace Json

def hexDigit (n : Nat) : Char :=
  Nat.digitChar n

def escape (c : Char) : List Char :=
  if c = '"' then ['\\', '"']
  else if c = '\\' then ['\\', '\\']
  else if c = '\x08' then ['\\', 'b']
  else if c = '\x0c' then ['\\', 'f']
  else if c = '\n' then ['\\', 'n']
  else if c = '\r' then ['\\', 'r']
  else if c = '\t' then ['\\', 't']
  else if c.toNat < 0x20 then
    ['\\', 'u', '0', '0', hexDigit (c.toNat / 16), hexDigit (c.toNat % 16)]
  else [c]

def quote (s : String) : String :=
  String.ofList ('"' :: s.toList.flatMap escape ++ ['"'])

def newLine (level : Nat) : String :=
  "\n" ++ String.ofList (List.replicate (2 * level) ' ')

mutual

def pretty (level : Nat) : Json → String
  | text s => quote s
  | array [] => "[]"
  | array (x :: xs) => "[" ++ prettyItems (level + 1) (x :: xs) ++ newLine level ++ "]"
  | object [] => "\x7b\x7d"
  | object (x :: xs) => "\x7b" ++ prettyFields (level + 1) (x :: xs) ++ newLine level ++ "\x7d"

def prettyItems (level : Nat) : List Json → String
  | [] => ""
  | [x] => newLine level ++ pretty level x
  | x :: xs => newLine level ++ pretty level x ++ "," ++ prettyItems level xs

def prettyFields (level : Nat) : List (String × Json) → String
  | [] => ""
  | [(k, x)] => newLine level ++ quote k ++ ": " ++ pretty level x
  | (k, x) :: xs =>
      newLine level ++ quote k ++ ": " ++ pretty level x ++ "," ++ prettyFields level xs

end

end Json

end CliCompletion
