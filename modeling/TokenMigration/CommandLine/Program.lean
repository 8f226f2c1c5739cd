import TokenMigration.CommandLine.Messages
import TokenMigration.Migration.Command

namespace TokenMigration.CommandLine

section

variable {m : Type → Type} [Monad m]

def fail (streams : Streams m) (failure : Failure) : m Int := do
  streams.stderr s!"Error: {failure.message}\n"
  failure.hints.forM fun hint => streams.stderr s!"  hint: {hint}\n"
  return failure.exitCode

-- A reader who has gone away is no failure, any other refusal overrides the exit code.
def answer (streams : Streams m) (envelope : Envelope) (exitCode : Int) : m Int := do
  match ← streams.stdout (envelope.text ++ "\n") with
  | .ok () => return exitCode
  | .error reason =>
    if reason = .brokenPipe then return exitCode
    else fail streams (.io reason.message (some "write JSON envelope to stdout"))

variable [FileAccess m]

def execute (streams : Streams m) (invocation : Invocation) : m Int := do
  if invocation.json then
    let result ← Command.run invocation.root invocation.dryRun streams.silent
    let (envelope, exitCode) := Envelope.ofResult (result.map Completed.response)
    answer streams envelope exitCode
  else
    match ← Command.run invocation.root invocation.dryRun streams.reporting with
    | .ok completed => return completed.response.2
    | .error failure => fail streams failure

-- The exit code of the program. Help that cannot be written is lost.
def run (streams : Streams m) (arguments : List Bytes) : m Int := do
  match parse arguments with
  | .ok invocation => execute streams invocation
  | .error .help => do
    let _ ← streams.stdout helpText
    return 0
  | .error .version => do
    let _ ← streams.stdout versionText
    return 0
  | .error (.misuse misuse) => do
    streams.stderr misuse.text
    return 2

end

-- What the system is told, one byte.
def exitStatus (exitCode : Int) : UInt8 :=
  if exitCode ≤ 0 then 0 else if 255 ≤ exitCode then 255 else exitCode.toNat.toUInt8

end TokenMigration.CommandLine
