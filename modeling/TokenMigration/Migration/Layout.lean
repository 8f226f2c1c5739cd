import TokenMigration.Failure
import TokenMigration.Files.Access

namespace TokenMigration

-- Where the targets of a migration are: some paths that are tried in any case, and the entries of a
-- directory whose names end in the extension.
structure Layout where
  extraPaths : List Path
  directory : Path
  extension : String
  deriving DecidableEq, Repr

namespace Layout

-- The handlers of a project, and the module that held them all before.
def handlers (root : Path) : Layout where
  extraPaths := [root.join (Utf8.encode "src/api/handlers_legacy.rs")]
  directory := root.join (Utf8.encode "src/api/handlers")
  extension := ".rs"

-- The names that count among those of the directory, in the order of their bytes. A name needs no
-- readable text to end in the extension.
def select (layout : Layout) (names : List Bytes) : List Bytes :=
  (names.filter ((Utf8.encode layout.extension).isSuffixOf ·)).mergeSort fun a b => a ≤ b

def targets (layout : Layout) (names : List Bytes) : List Path :=
  layout.extraPaths ++ (layout.select names).map layout.directory.join

def discover {m : Type → Type} [Monad m] [FileAccess m] (layout : Layout) :
    m (Except Failure (List Path)) := do
  match ← FileAccess.list layout.directory with
  | .ok names => return .ok (layout.targets names)
  | .error reason => return .error (.fileOperation layout.directory .list reason)

end Layout

end TokenMigration
