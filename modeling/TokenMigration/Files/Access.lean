import TokenMigration.Files.IoError
import TokenMigration.Files.Path

namespace TokenMigration

-- What a migration does with files. Paths are taken from the current directory.
class FileAccess (m : Type → Type) where
  -- A path that leads nowhere, for whatever reason, is not there.
  isPresent : Path → m Bool
  isDirectory : Path → m Bool
  read : Path → m (Except IoError Bytes)
  -- The file keeps its names and rights.
  overwrite : Path → Bytes → m (Except IoError Unit)
  -- The names come in no particular order.
  list : Path → m (Except IoError (List Bytes))
  currentDirectory : m (Except IoError Path)

end TokenMigration
