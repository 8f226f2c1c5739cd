import TokenMigration.Files.IoError
import TokenMigration.Files.Path

namespace TokenMigration

-- What the owner of a file or directory may do with it. Searching a directory means to go through
-- it to one of its entries.
structure Rights where
  read : Bool
  write : Bool
  search : Bool
  deriving DecidableEq, Repr

def Rights.all : Rights := ⟨true, true, true⟩

def Rights.ofMode (mode : Nat) : Rights := ⟨mode.testBit 8, mode.testBit 7, mode.testBit 6⟩

abbrev NodeId := Nat

inductive Node where
  | file (rights : Rights) (content : Bytes)
  | directory (rights : Rights) (entries : List (Bytes × NodeId))
  | link (target : Path)
  deriving DecidableEq, Repr

namespace Node

def withRights (rights : Rights) : Node → Node
  | .file _ content => .file rights content
  | .directory _ entries => .directory rights entries
  | .link target => .link target

def isDirectory : Node → Bool
  | .directory .. => true
  | _ => false

def entries : Node → List (Bytes × NodeId)
  | .directory _ entries => entries
  | _ => []

def withEntries (entries : List (Bytes × NodeId)) : Node → Node
  | .directory rights _ => .directory rights entries
  | node => node

def withContent (content : Bytes) : Node → Node
  | .file rights _ => .file rights content
  | node => node

end Node

-- A node is known by its position. The first one is the top directory. A file may be the entry of
-- several directories, or of none.
structure FileTree where
  nodes : List Node
  deriving DecidableEq, Repr

-- The entries that lead from the top directory to a node, the last one first.
abbrev Place := List (Bytes × NodeId)

def Place.node : Place → NodeId
  | [] => 0
  | (_, id) :: _ => id

def Place.path (place : Place) : Path :=
  place.foldr (fun entry path => path.join entry.1) ⟨[Path.slash]⟩

namespace FileTree

def node? (tree : FileTree) (id : NodeId) : Option Node := tree.nodes[id]?

def modify (tree : FileTree) (id : NodeId) (f : Node → Node) : FileTree :=
  ⟨tree.nodes.modify id f⟩

def entriesOf (tree : FileTree) (id : NodeId) : List (Bytes × NodeId) :=
  ((tree.node? id).map Node.entries).getD []

-- Whether the last entry of a place still exists.
def isLinked (tree : FileTree) : Place → Bool
  | [] => true
  | (name, id) :: parent => (tree.entriesOf (Place.node parent)).lookup name == some id

-- Why a directory has no entry of a name. The length of the name is not looked at in a directory
-- that has been removed, because it has no entries at all.
def missing (tree : FileTree) (directory : Place) (name : Bytes) : IoError :=
  if 255 < name.length && tree.isLinked directory then .nameTooLong else .notFound

-- Follows the steps up to the first link and leaves its target to `follow`, together with the
-- steps behind it. Every step but the demand for a directory needs the right to search the
-- directory from which it is taken, also a step that stays or goes up.
def walkWith (tree : FileTree) (follow : Place → Path → List Path.Step → Except IoError Place) :
    Place → List Path.Step → Except IoError Place
  | place, [] => .ok place
  | place, step :: steps =>
    match tree.node? place.node with
    | some (.directory rights entries) =>
      match step with
      | .beDirectory => walkWith tree follow place steps
      | .stay =>
        if rights.search then walkWith tree follow place steps else .error .permissionDenied
      | .up =>
        if rights.search then walkWith tree follow place.tail steps else .error .permissionDenied
      | .into name =>
        if !rights.search then .error .permissionDenied
        else match entries.lookup name with
          | none => .error (tree.missing place name)
          | some id =>
            match tree.node? id with
            | some (.link target) => follow place target steps
            | _ => walkWith tree follow ((name, id) :: place) steps
    | _ => .error .notADirectory

def walk (tree : FileTree) : Nat → Place → List Path.Step → Except IoError Place
  | 0 => tree.walkWith fun _ _ _ => .error .tooManyLinks
  | links + 1 => tree.walkWith fun place target rest =>
      tree.walk links (if target.isAbsolute then [] else place) (target.steps ++ rest)

def maxLinks : Nat := 40

def find (tree : FileTree) (current : Place) (path : Path) : Except IoError Place :=
  if path.bytes.contains 0 then .error .nulInPath
  else if path.bytes.isEmpty then .error .notFound
  else if 4095 < path.bytes.length then .error .nameTooLong
  else tree.walk maxLinks (if path.isAbsolute then [] else current) path.steps

def isDirectory (tree : FileTree) (current : Place) (path : Path) : Bool :=
  match tree.find current path with
  | .ok place => (tree.node? place.node).any Node.isDirectory
  | .error _ => false

-- A directory can be opened like a file, but not read.
def read (tree : FileTree) (current : Place) (path : Path) : Except IoError Bytes := do
  let place ← tree.find current path
  match tree.node? place.node with
  | some (.file rights content) => if rights.read then .ok content else .error .permissionDenied
  | some (.directory rights _) => .error (if rights.read then .isADirectory else .permissionDenied)
  | _ => .error .notFound

-- The file that may be written under a path. It must be there already.
def openForWriting (tree : FileTree) (current : Place) (path : Path) : Except IoError NodeId := do
  let place ← tree.find current path
  match tree.node? place.node with
  | some (.file rights _) => if rights.write then .ok place.node else .error .permissionDenied
  | some (.directory ..) => .error .isADirectory
  | _ => .error .notFound

-- A directory that has been removed may still be the current one. It can be listed and is empty.
def list (tree : FileTree) (current : Place) (path : Path) : Except IoError (List Bytes) := do
  let place ← tree.find current path
  match tree.node? place.node with
  | some (.directory rights entries) =>
    if rights.read then .ok (entries.map Prod.fst) else .error .permissionDenied
  | _ => .error .notADirectory

end FileTree

end TokenMigration
