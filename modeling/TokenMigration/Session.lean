import TokenMigration.Files.Access
import TokenMigration.Files.Tree
import TokenMigration.Output

namespace TokenMigration

-- Takes or refuses what is written to it, and may decide by all that came before.
structure Sink (σ : Type) where
  accept : σ → String → Except IoError Unit × σ

namespace Sink

def collecting : Sink String where
  accept written text := (.ok (), written ++ text)

def refusing (reason : IoError) : Sink String where
  accept written _ := (.error reason, written)

end Sink

-- What a program can see and change while it runs. `stdout` is what the sink makes of the standard
-- output, `overwritten` holds the files that have been opened for writing, the latest one first.
structure Session (σ : Type) where
  tree : FileTree
  current : Place
  stdout : σ
  stderr : String := ""
  overwritten : List NodeId := []

namespace Session

variable {σ : Type}

def isPresent (session : Session σ) (path : Path) : Bool :=
  (session.tree.find session.current path).toBool

def isDirectory (session : Session σ) (path : Path) : Bool :=
  session.tree.isDirectory session.current path

def read (session : Session σ) (path : Path) : Except IoError Bytes :=
  session.tree.read session.current path

def list (session : Session σ) (path : Path) : Except IoError (List Bytes) :=
  session.tree.list session.current path

def overwrite (session : Session σ) (path : Path) (content : Bytes) :
    Except IoError Unit × Session σ :=
  match session.tree.openForWriting session.current path with
  | .error reason => (.error reason, session)
  | .ok id =>
    (.ok (), { session with
      tree := session.tree.modify id (Node.withContent content)
      overwritten := id :: session.overwritten })

-- A current directory that has been removed has no path.
def currentDirectory (session : Session σ) : Except IoError Path :=
  if session.tree.isLinked session.current then .ok session.current.path else .error .notFound

instance : FileAccess (StateM (Session σ)) where
  isPresent path session := (session.isPresent path, session)
  isDirectory path session := (session.isDirectory path, session)
  read path session := (session.read path, session)
  overwrite path content session := session.overwrite path content
  list path session := (session.list path, session)
  currentDirectory session := (session.currentDirectory, session)

def streams (sink : Sink σ) (stderrIsTerminal : Bool) : Streams (StateM (Session σ)) where
  stdout text session :=
    let (result, stdout) := sink.accept session.stdout text
    (result, { session with stdout })
  stderr text session := ((), { session with stderr := session.stderr ++ text })
  stderrIsTerminal

end Session

end TokenMigration
