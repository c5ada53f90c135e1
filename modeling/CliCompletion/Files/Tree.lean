import CliCompletion.Files.Fault
import CliCompletion.Files.Path

namespace CliCompletion

abbrev Location := List String

def Location.path (l : Location) : Path :=
  ⟨"/" ++ "/".intercalate l.reverse⟩

inductive Entry where
  | directory
  | file (bytes : ByteArray)

namespace Entry

def isDirectory : Entry → Bool
  | directory => true
  | file _ => false

def bytes? : Entry → Option ByteArray
  | directory => none
  | file bytes => some bytes

end Entry

structure FileTree where
  entries : List (Location × Entry)

namespace FileTree

def empty : FileTree :=
  ⟨[]⟩

def find? (t : FileTree) : Location → Option Entry
  | [] => some .directory
  | l => t.entries.lookup l

def put (t : FileTree) (l : Location) (e : Entry) : FileTree :=
  ⟨(l, e) :: t.entries⟩

theorem find?_put_self (t : FileTree) {l : Location} (h : l ≠ []) (e : Entry) :
    (t.put l e).find? l = some e := by
  cases l with
  | nil => exact absurd rfl h
  | cons n l => simp [find?, put]

theorem find?_put_of_ne (t : FileTree) {l k : Location} (h : k ≠ l) (e : Entry) :
    (t.put l e).find? k = t.find? k := by
  cases k with
  | nil => rfl
  | cons n k =>
      have hne : (n :: k == l) = false := beq_eq_false_iff_ne.2 h
      simp [find?, put, List.lookup_cons, hne]

def isDirectory (t : FileTree) (l : Location) : Bool :=
  ((t.find? l).map Entry.isDirectory).getD false

def maxNameSize : Nat := 255

def step (t : FileTree) (l : Location) (name : String) : Except FileFault Location :=
  if !t.isDirectory l then .error .notDirectory
  else if name == "" || name == "." then .ok l
  else if name == ".." then .ok l.tail
  else if maxNameSize < name.utf8ByteSize then .error .nameTooLong
  else if (t.find? (name :: l)).isSome then .ok (name :: l)
  else .error .notFound

def walk (t : FileTree) (l : Location) (names : List String) : Except FileFault Location :=
  names.foldlM t.step l

def start (directory : Location) (p : Path) : Location :=
  if p.isAbsolute then [] else directory

def checkName (p : Path) : Except FileFault Unit :=
  if p.text.toList.contains '\x00' then .error .nameHoldsNul
  else if p.text.isEmpty then .error .notFound
  else .ok ()

def resolve (t : FileTree) (directory : Location) (p : Path) : Except FileFault Location := do
  checkName p
  t.walk (start directory p) p.components

def isFile (t : FileTree) (directory : Location) (p : Path) : Bool :=
  match t.resolve directory p with
  | .ok l => !t.isDirectory l
  | .error _ => false

def readBytes (t : FileTree) (directory : Location) (p : Path) : Except FileFault ByteArray := do
  match t.find? (← t.resolve directory p) with
  | some (.file bytes) => return bytes
  | some .directory => throw .isDirectory
  | none => throw .notFound

def textOf (bytes : ByteArray) : Except FileFault String :=
  match String.fromUTF8? bytes with
  | some s => .ok s
  | none => .error .notText

def read (t : FileTree) (directory : Location) (p : Path) : Except FileFault String := do
  textOf (← t.readBytes directory p)

def placeFor (t : FileTree) (directory : Location) (p : Path) : Except FileFault Location := do
  checkName p
  match p.components.reverse.dropWhile (·.isEmpty) with
  | [] => throw .isDirectory
  | name :: outer =>
      let l ← t.walk (start directory p) outer.reverse
      if !t.isDirectory l then throw .notDirectory
      else if p.text.toList.getLast? == some '/' || name == "." || name == ".." then
        throw .isDirectory
      else if maxNameSize < name.utf8ByteSize then throw .nameTooLong
      else if t.isDirectory (name :: l) then throw .isDirectory
      else return name :: l

def write (t : FileTree) (directory : Location) (p : Path) (text : String) :
    Except FileFault FileTree := do
  return t.put (← t.placeFor directory p) (.file text.toUTF8)

end FileTree

end CliCompletion
