import TokenMigration.Migration.Layout
import TokenMigration.Migration.Summary
import TokenMigration.Output
import TokenMigration.Table

namespace TokenMigration

inductive Change where
  | updated (replacements : Nat)
  | wouldUpdate (replacements : Nat)
  | unchanged
  deriving DecidableEq, Repr

namespace Change

def outcome : Change → Outcome
  | .updated n => .changed n.toUInt64
  | .wouldUpdate n => .changed n.toUInt64
  | .unchanged => .unchanged

def line (path : Path) : Change → String
  | .updated _ => s!"Updated {path.display}"
  | .wouldUpdate _ => s!"Would update {path.display}"
  | .unchanged => s!"No changes in {path.display}"

end Change

def Failure.line (failure : Failure) (path : Path) : String :=
  s!"Error processing {path.display}: {failure.message}"

-- What the table makes of the text that the bytes hold, or nothing if it leaves the text as it is.
def Table.revise (table : Table) (bytes : Bytes) : Except IoError (Option Rewrite) :=
  match Utf8.decode? bytes with
  | none => .error .malformedText
  | some text =>
    let rewrite := table.apply text
    .ok (if rewrite.content = text then none else some rewrite)

section

variable {m : Type → Type} [Monad m] [FileAccess m]

-- A file is written only if the table changes its text, whatever the number of replacements.
def rewriteFile (table : Table) (dryRun : Bool) (path : Path) : m (Except Failure Change) := do
  match (← FileAccess.read path).bind table.revise with
  | .error reason => return .error (.fileOperation path .read reason)
  | .ok none => return .ok .unchanged
  | .ok (some rewrite) =>
    if dryRun then return .ok (.wouldUpdate rewrite.replacements)
    else
      match ← FileAccess.overwrite path (Utf8.encode rewrite.content) with
      | .error reason => return .error (.fileOperation path .write reason)
      | .ok () => return .ok (.updated rewrite.replacements)

def visit (table : Table) (dryRun : Bool) (output : Output m) (path : Path) : m Outcome := do
  if ← FileAccess.isPresent path then
    output.line s!"Processing {path.display}..."
    match ← rewriteFile table dryRun path with
    | .ok change =>
      output.line (change.line path)
      return change.outcome
    | .error failure =>
      output.line (failure.line path)
      return .failed failure
  else
    output.line s!"File not found: {path.display}"
    return .notFound

-- Every target is tried, whatever has come of the ones before. If the directory cannot be listed,
-- that is the first item and only the extra paths are tried.
def migrate (layout : Layout) (table : Table) (dryRun : Bool) (output : Output m) : m Summary := do
  let start := Summary.start dryRun
  let (targets, summary) ←
    match ← layout.discover with
    | .ok targets => pure (targets, start)
    | .error failure => do
      output.line (failure.line layout.directory)
      pure (layout.extraPaths, start.record layout.directory (.failed failure))
  output.note s!"{targets.length} target(s), {table.size} replacement pair(s)"
  targets.foldlM
    (fun summary path => do return summary.record path (← visit table dryRun output path)) summary

end

end TokenMigration
