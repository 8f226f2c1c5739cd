import TokenMigration.CommandLine.Program

namespace TokenMigration

def IoError.ofSystem : IO.Error → IoError
  | .alreadyExists _ number _ | .otherError number _ | .resourceBusy number _
  | .resourceVanished number _ | .unsupportedOperation number _ | .hardwareFault number _
  | .unsatisfiedConstraints number _ | .illegalOperation number _ | .protocolError number _
  | .timeExpired number _ | .interrupted _ number _ | .noFileOrDirectory _ number _
  | .invalidArgument _ number _ | .permissionDenied _ number _ | .resourceExhausted _ number _
  | .inappropriateType _ number _ | .noSuchThing _ number _ => .system number.toNat
  | error => .other (toString error)

def attempt {α : Type} (action : IO α) : IO (Except IoError α) :=
  try return .ok (← action)
  catch error => return .error (.ofSystem error)

-- The path as the system takes it. One that is no text cannot be named and leads nowhere.
def Path.entry (path : Path) : Except IoError IO.FS.DirEntry :=
  if path.bytes.contains 0 then .error .nulInPath
  else
    match Utf8.decode? path.bytes with
    | none => .error .notFound
    | some text => .ok { root := text, fileName := "" }

def Path.use {α : Type} (path : Path) (action : IO.FS.DirEntry → IO α) : IO (Except IoError α) :=
  match path.entry with
  | .ok entry => attempt (action entry)
  | .error reason => return .error reason

instance : FileAccess IO where
  isPresent path := do
    return (← path.use fun entry => entry.root.metadata).toBool
  isDirectory path := do
    match ← path.use fun entry => entry.root.isDir with
    | .ok answer => return answer
    | .error _ => return false
  read path := path.use fun entry => return (← IO.FS.readBinFile entry.root).data.toList
  overwrite path content := path.use fun entry =>
    IO.FS.writeBinFile entry.root ⟨content.toArray⟩
  list path := path.use fun entry => do
    return (← entry.root.readDir).toList.map fun found => Utf8.encode found.fileName
  currentDirectory := attempt do return Path.ofString (← IO.currentDir).toString

def systemStreams : IO (Streams IO) := do
  let stdout ← IO.getStdout
  let stderr ← IO.getStderr
  return {
    stdout := fun text => attempt do
      stdout.putStr text
      stdout.flush
    stderr := stderr.putStr
    stderrIsTerminal := ← stderr.isTty }

end TokenMigration

def main (arguments : List String) : IO UInt32 := do
  let exitCode ← TokenMigration.CommandLine.run (← TokenMigration.systemStreams)
    (arguments.map TokenMigration.Utf8.encode)
  return (TokenMigration.CommandLine.exitStatus exitCode).toUInt32
