import CliCompletion.Program

namespace CliCompletion

def systemNumber (code : UInt32) : UInt32 :=
  if code < 0x80000000 then code else 0 - code

def FileFault.ofSystem (code : UInt32) (details : String) : FileFault :=
  let number := systemNumber code
  if number == 2 then .notFound
  else if number == 20 then .notDirectory
  else if number == 21 then .isDirectory
  else if number == 36 then .nameTooLong
  else .other (details ++ " (os error " ++ toString number ++ ")")

def FileFault.ofError : IO.Error → FileFault
  | .noFileOrDirectory _ code details | .interrupted _ code details => .ofSystem code details
  | .alreadyExists _ code details | .invalidArgument _ code details
  | .permissionDenied _ code details | .resourceExhausted _ code details
  | .inappropriateType _ code details | .noSuchThing _ code details => .ofSystem code details
  | .otherError code details | .resourceBusy code details | .resourceVanished code details
  | .unsupportedOperation code details | .hardwareFault code details
  | .unsatisfiedConstraints code details | .illegalOperation code details
  | .protocolError code details | .timeExpired code details => .ofSystem code details
  | e => .other (toString e)

def guarded {α : Type} (p : Path) (action : IO α) : IO (Except FileFault α) := do
  match FileTree.checkName p with
  | .error fault => return .error fault
  | .ok () =>
      try
        return .ok (← action)
      catch e =>
        return .error (.ofError e)

def metadata (p : Path) : IO IO.FS.Metadata := do
  let directory ← IO.currentDir
  (directory / p.text).metadata

instance : Host IO where
  directory := do
    try
      return ⟨(← IO.currentDir).toString⟩
    catch _ =>
      return ⟨""⟩
  isFile p := do
    match ← guarded p (metadata p) with
    | .ok found => return found.type == .file
    | .error _ => return false
  read p := do return (← guarded p (IO.FS.readBinFile p.text)).bind FileTree.textOf
  readInput := do
    try
      return FileTree.textOf (← (← IO.getStdin).readBinToEnd)
    catch e =>
      return .error (.ofError e)
  print text := do
    let output ← IO.getStdout
    output.putStr text
    output.flush
  complain text := do (← IO.getStderr).putStr text
  write p text := guarded p (IO.FS.withFile p.text .write fun file => do
    file.putStr text
    file.flush)

end CliCompletion

def main (args : List String) : IO UInt32 := do
  return UInt32.ofNat (← CliCompletion.Program.run args)
