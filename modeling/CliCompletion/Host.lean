import CliCompletion.Files.Tree

namespace CliCompletion

class Host (m : Type → Type) where
  directory : m Path
  isFile : Path → m Bool
  read : Path → m (Except FileFault String)
  readInput : m (Except FileFault String)
  print : String → m Unit
  complain : String → m Unit
  write : Path → String → m (Except FileFault Unit)

structure Session where
  files : FileTree
  directory : Location
  input : ByteArray
  printed : String
  complaints : String

namespace Session

def fresh (files : FileTree) (directory : Location) (input : ByteArray) : Session :=
  ⟨files, directory, input, "", ""⟩

def write (s : Session) (p : Path) (text : String) : Except FileFault Unit × Session :=
  match s.files.write s.directory p text with
  | .ok files => (.ok (), { s with files := files })
  | .error fault => (.error fault, s)

instance : Host (StateM Session) where
  directory := fun s => (s.directory.path, s)
  isFile := fun p s => (s.files.isFile s.directory p, s)
  read := fun p s => (s.files.read s.directory p, s)
  readInput := fun s => (FileTree.textOf s.input, { s with input := .empty })
  print := fun text s => ((), { s with printed := s.printed ++ text })
  complain := fun text s => ((), { s with complaints := s.complaints ++ text })
  write := fun p text s => s.write p text

end Session

end CliCompletion
