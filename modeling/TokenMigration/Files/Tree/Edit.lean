import TokenMigration.Files.Tree

namespace TokenMigration.FileTree

def empty : FileTree := ⟨[.directory .all []]⟩

-- The same nodes with every right granted. A place found here is a place of the tree itself.
def granted (tree : FileTree) : FileTree := ⟨tree.nodes.map (Node.withRights .all)⟩

def enter (tree : FileTree) (current : Place) (path : Path) : Except IoError Place := do
  let place ← tree.granted.find current path
  if (tree.node? place.node).any Node.isDirectory then .ok place else .error .notADirectory

def addEntry (tree : FileTree) (directory : NodeId) (name : Bytes) (id : NodeId) : FileTree :=
  tree.modify directory fun node => node.withEntries (node.entries ++ [(name, id)])

def removeEntry (tree : FileTree) (directory : NodeId) (name : Bytes) : FileTree :=
  tree.modify directory fun node => node.withEntries (node.entries.filter (·.1 != name))

def addNode (tree : FileTree) (directory : NodeId) (name : Bytes) (node : Node) : FileTree :=
  addEntry ⟨tree.nodes ++ [node]⟩ directory name tree.nodes.length

-- Takes the steps and makes the directories that are missing on the way.
def makeDirectories (tree : FileTree) : Place → List Path.Step → Except IoError (FileTree × Place)
  | place, [] => .ok (tree, place)
  | place, step :: steps =>
    match tree.granted.walk maxLinks place [step], step with
    | .ok next, _ => makeDirectories tree next steps
    | .error .notFound, .into name =>
      if ((tree.entriesOf place.node).lookup name).isSome then .error .notFound
      else
        makeDirectories (tree.addNode place.node name (.directory .all []))
          ((name, tree.nodes.length) :: place) steps
    | .error e, _ => .error e

-- The directory in which the last name of a path stands, made where it is missing.
def makeParent (tree : FileTree) (current : Place) (path : Path) :
    Except IoError (FileTree × Place × Bytes) := do
  let start := if path.isAbsolute then [] else current
  match path.steps.getLast? with
  | some (.into name) =>
    let (tree, parent) ← tree.makeDirectories start path.steps.dropLast
    if (tree.node? parent.node).any Node.isDirectory then .ok (tree, parent, name)
    else .error .notADirectory
  | _ => .error .isADirectory

-- Overwrites the file that the path leads to, or makes a new one, also where a link at its end
-- leads to nothing yet.
def putFile (tree : FileTree) (content : Bytes) : Nat → Place → Path → Except IoError FileTree
  | 0, _, _ => .error .tooManyLinks
  | links + 1, current, path => do
    let (tree, parent, name) ← tree.makeParent current path
    match (tree.entriesOf parent.node).lookup name with
    | none => .ok (tree.addNode parent.node name (.file .all content))
    | some id =>
      match tree.node? id with
      | some (.link target) => tree.putFile content links parent target
      | some (.file ..) => .ok (tree.modify id (Node.withContent content))
      | _ => .error .isADirectory

def putDirectory (tree : FileTree) (current : Place) (path : Path) : Except IoError FileTree := do
  let (tree, _) ← tree.makeDirectories (if path.isAbsolute then [] else current) path.steps
  .ok tree

private def putNew (tree : FileTree) (current : Place) (path : Path)
    (add : FileTree → NodeId → Bytes → FileTree) : Except IoError FileTree := do
  let (tree, parent, name) ← tree.makeParent current path
  if ((tree.entriesOf parent.node).lookup name).isSome then .error (.system 17)
  else .ok (add tree parent.node name)

def putLink (tree : FileTree) (current : Place) (path target : Path) : Except IoError FileTree :=
  tree.putNew current path fun tree directory name => tree.addNode directory name (.link target)

-- The entry that a path names, which may be a link.
def findEntry (tree : FileTree) (current : Place) (path : Path) :
    Except IoError (NodeId × Bytes × NodeId) := do
  match path.steps.getLast? with
  | some (.into name) =>
    let start := if path.isAbsolute then [] else current
    let parent ← tree.granted.walk maxLinks start path.steps.dropLast
    match (tree.entriesOf parent.node).lookup name with
    | some id => .ok (parent.node, name, id)
    | none => .error .notFound
  | _ => .error .isADirectory

-- A second name for a node that has one already.
def putName (tree : FileTree) (current : Place) (path present : Path) :
    Except IoError FileTree := do
  let (_, _, id) ← tree.findEntry current present
  tree.putNew current path fun tree directory name => tree.addEntry directory name id

def setRights (tree : FileTree) (current : Place) (path : Path) (rights : Rights) :
    Except IoError FileTree := do
  let place ← tree.granted.find current path
  .ok (tree.modify place.node (Node.withRights rights))

-- A directory goes with all that is in it.
def unlink (tree : FileTree) : Place → FileTree
  | [] => tree
  | (name, _) :: parent => tree.removeEntry (Place.node parent) name

def remove (tree : FileTree) (current : Place) (path : Path) : Except IoError FileTree := do
  let (directory, name, _) ← tree.findEntry current path
  .ok (tree.removeEntry directory name)

-- The new name may belong to another entry, which it replaces.
def rename (tree : FileTree) (current : Place) (path newPath : Path) :
    Except IoError FileTree := do
  let (directory, name, id) ← tree.findEntry current path
  let (tree, newParent, newName) ← tree.makeParent current newPath
  if (tree.entriesOf newParent.node).lookup newName == some id then .ok tree
  else
    .ok (((tree.removeEntry directory name).removeEntry newParent.node newName).addEntry
      newParent.node newName id)

private def filesWithin (tree : FileTree) : Nat → Path → NodeId → List (Path × NodeId)
  | 0, _, _ => []
  | depth + 1, above, directory =>
    (tree.entriesOf directory).flatMap fun (name, id) =>
      match tree.node? id with
      | some (.file ..) => [(above.join name, id)]
      | some (.directory ..) => filesWithin tree depth (above.join name) id
      | _ => []

-- The regular files below a directory, each under all of its names. No way down a tree is longer
-- than the number of its nodes.
def files (tree : FileTree) (directory : NodeId) : List (Path × NodeId) :=
  filesWithin tree tree.nodes.length ⟨[]⟩ directory

end TokenMigration.FileTree
