import TokenMigration.Envelope
import TokenMigration.Migration.Run
import TokenMigration.Table.StateGroups

namespace TokenMigration

structure Completed where
  root : Path
  pairCount : Nat
  summary : Summary
  deriving DecidableEq, Repr

namespace Completed

-- The fields of the summary stand beside those of the command.
def toJson (completed : Completed) : Json :=
  .object <|
    [("command", .text "rewrite"),
      ("root", .text completed.root.display),
      ("replacementPairs", .number completed.pairCount)] ++
    completed.summary.fields

-- What became of the single targets never makes the command fail.
def response (completed : Completed) : Payload × Int := (.ok completed.toJson, 0)

end Completed

def Summary.note (summary : Summary) : String :=
  s!"{summary.updated} updated, {summary.wouldUpdate} would update, " ++
    s!"{summary.unchanged} unchanged, {summary.notFound} not found, {summary.errors} failed"

namespace Command

variable {m : Type → Type} [Monad m] [FileAccess m]

def notADirectory (root : Path) : Failure :=
  let shown := root.display
  Failure.invalidArgument "root" s!"'{shown}' is not a directory" (some shown)
    |>.withHint "Pass --root <DIR> pointing at the project checkout"

-- Without a root the current directory is the project.
def resolveRoot (root : Option Path) : m (Except Failure Path) := do
  let resolved ←
    match root with
    | some path => pure (.ok path)
    | none => FileAccess.currentDirectory
  match resolved with
  | .error reason => return .error (.io reason.message (some "resolve current directory"))
  | .ok path =>
    if ← FileAccess.isDirectory path then return .ok path
    else return .error (notADirectory path)

-- Nothing is touched before the root is known to be a directory.
def run (root : Option Path) (dryRun : Bool) (output : Output m) :
    m (Except Failure Completed) := do
  match ← resolveRoot root with
  | .error failure => return .error failure
  | .ok path =>
    output.note s!"Project root {path.display}"
    let summary ← migrate (.handlers path) .stateGroups dryRun output
    output.note summary.note
    return .ok ⟨path, Table.stateGroups.size, summary⟩

end Command

end TokenMigration
