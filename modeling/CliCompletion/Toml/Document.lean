import CliCompletion.Toml.Plain
import CliCompletion.Toml.Quoted
import CliCompletion.Toml.Value

namespace CliCompletion.Toml

inductive Line where
  | header (path : List String) (key : String)
  | another (path : List String) (key : String)
  | pair (path : List String) (key : String) (value : Value)
  deriving Repr

namespace Line

open Reader

def isKeyChar (c : Char) : Bool :=
  c.isAlphanum || c == '_' || c == '-'

def readKey : Reader String := do
  if ← accept ['"'] then Quoted.single true '"'
  else if ← accept ['\''] then Quoted.single false '\''
  else
    let s ← run isKeyChar
    if s.isEmpty then fail else return String.ofList s

def readPath : Nat → Reader (List String × String)
  | 0 => fail
  | n + 1 => do
      skipBlanks
      let k ← readKey
      skipBlanks
      if ← accept ['.'] then
        let (path, last) ← readPath n
        return (k :: path, last)
      else return ([], k)

def readTime : Reader (List Char) := do
  match ← rest with
  | ' ' :: c :: s =>
      if c.isDigit then
        skipTo (c :: s)
        return ' ' :: (← run Plain.isMark)
      else return []
  | _ => return []

def readPlain : Reader Value := do
  let s ← run Plain.isMark
  if s == "true".toList then return .bool true
  else if s == "false".toList then return .bool false
  else
    let time ← if Plain.isDate s then readTime else pure []
    if Plain.isValue (s ++ time) then return .plain (String.ofList (s ++ time)) else fail

def readItems (item : Reader Value) : Nat → Reader (List Value)
  | 0 => fail
  | n + 1 => do
      skipGap
      if ← accept [']'] then return []
      let v ← item
      skipGap
      if ← accept [','] then
        let vs ← readItems item n
        return v :: vs
      expect [']']
      return [v]

def readPair (item : Reader Value) (n : Nat) : Reader (List String × String × Value) := do
  let (path, k) ← readPath n
  expect ['=']
  skipBlanks
  let v ← item
  return (path, k, v)

def readPairs (item : Reader Value) : Nat → Reader (List (List String × String × Value))
  | 0 => fail
  | n + 1 => do
      let p ← readPair item n
      skipBlanks
      if ← accept [','] then
        let ps ← readPairs item n
        return p :: ps
      expect ['}']
      return [p]

def inlineTable (pairs : List (List String × String × Value)) : Option Value :=
  pairs.foldlM (fun t (path, k, v) =>
    match t with
    | .table o fs => Value.assign path k v o fs
    | _ => none) (.table .inline [])

def readInline (item : Reader Value) (n : Nat) : Reader Value := do
  skipBlanks
  if ← accept ['}'] then return .table .inline []
  match inlineTable (← readPairs item n) with
  | some t => return t
  | none => fail

def readValue : Nat → Reader Value
  | 0 => fail
  | n + 1 => do
      if ← accept ['"', '"', '"'] then return .text (← Quoted.triple true '"')
      else if ← accept ['\'', '\'', '\''] then return .text (← Quoted.triple false '\'')
      else if ← accept ['"'] then return .text (← Quoted.single true '"')
      else if ← accept ['\''] then return .text (← Quoted.single false '\'')
      else if ← accept ['['] then return .array (← readItems (readValue n) n)
      else if ← accept ['{'] then readInline (readValue n) n
      else readPlain

def read (limit : Nat) : Reader Line := do
  let line ←
    if ← accept ['[', '['] then do
      let (path, k) ← readPath limit
      expect [']', ']']
      pure (another path k)
    else if ← accept ['['] then do
      let (path, k) ← readPath limit
      expect [']']
      pure (header path k)
    else do
      let (path, k, v) ← readPair (readValue limit) limit
      pure (pair path k v)
  endOfLine
  return line

def readAll (limit : Nat) : Nat → Reader (List Line)
  | 0 => fail
  | n + 1 => do
      skipGap
      match ← rest with
      | [] => return []
      | _ =>
          let line ← read limit
          return line :: (← readAll limit n)

def ofText (s : List Char) : Option (List Line) :=
  let s := if s.head? == some '\ufeff' then s.tail else s
  if isSound s then (readAll (s.length + 1) (s.length + 1) s).map (·.1) else none

structure Progress where
  opened : List String
  table : Value

def add (d : Progress) (line : Line) : Option Progress :=
  match d.table with
  | .table o fs =>
      match line with
      | header path k => (Value.openTable path k o fs).map (⟨path ++ [k], ·⟩)
      | another path k => (Value.openAnother path k o fs).map (⟨path ++ [k], ·⟩)
      | pair path k v => (Value.assignUnder d.opened path k v o fs).map (⟨d.opened, ·⟩)
  | _ => none

end Line

def Value.ofText (s : List Char) : Option Value := do
  let lines ← Line.ofText s
  let d ← lines.foldlM Line.add ⟨[], .table .header []⟩
  return d.table

end CliCompletion.Toml
