import TokenMigration.Files.Tree

namespace TokenMigration

-- Of a file only that it is one.
def Node.outline : Node → Node
  | .file _ _ => .file .all []
  | node => node

namespace FileTree

theorem eq_of_node? {tree other : FileTree} (h : ∀ id, tree.node? id = other.node? id) :
    tree = other := by
  cases tree
  cases other
  rw [FileTree.mk.injEq]
  exact List.ext_getElem? h

-- What a path finds on its way: the same nodes, with the rights and the contents of files left out.
def outline (tree : FileTree) : FileTree := ⟨tree.nodes.map Node.outline⟩

theorem node?_outline (tree : FileTree) (id : NodeId) :
    tree.outline.node? id = (tree.node? id).map Node.outline := by
  simp [node?, outline]

theorem entriesOf_outline (tree : FileTree) (id : NodeId) :
    tree.outline.entriesOf id = tree.entriesOf id := by
  simp only [entriesOf, node?_outline]
  cases tree.node? id with
  | none => rfl
  | some node => cases node <;> rfl

theorem isLinked_outline (tree : FileTree) (place : Place) :
    tree.outline.isLinked place = tree.isLinked place := by
  cases place with
  | nil => rfl
  | cons entry parent => simp only [isLinked, entriesOf_outline]

theorem missing_outline (tree : FileTree) (directory : Place) (name : Bytes) :
    tree.outline.missing directory name = tree.missing directory name := by
  simp only [missing, isLinked_outline]

theorem walkWith_outline (tree : FileTree)
    (follow : Place → Path → List Path.Step → Except IoError Place) (place : Place)
    (steps : List Path.Step) :
    tree.outline.walkWith follow place steps = tree.walkWith follow place steps := by
  induction steps generalizing place with
  | nil => rfl
  | cons step steps ih =>
    simp only [walkWith, node?_outline]
    cases tree.node? place.node with
    | none => rfl
    | some node =>
      cases node with
      | file rights content => rfl
      | link target => rfl
      | directory rights entries =>
        simp only [Option.map_some, Node.outline]
        cases step with
        | beDirectory => exact ih place
        | stay => simp only [ih]
        | up => simp only [ih]
        | into name =>
          simp only [ih, missing_outline]
          cases hl : entries.lookup name with
          | none => rfl
          | some id =>
            simp only
            cases tree.node? id with
            | none => rfl
            | some child => cases child <;> rfl

theorem walk_outline (tree : FileTree) (links : Nat) (place : Place) (steps : List Path.Step) :
    tree.outline.walk links place steps = tree.walk links place steps := by
  induction links generalizing place steps with
  | zero => exact walkWith_outline _ _ _ _
  | succ links ih =>
    have hfollow : tree.outline.walk links = tree.walk links := by
      funext place steps
      exact ih place steps
    simp only [walk, hfollow]
    exact walkWith_outline _ _ _ _

theorem find_outline (tree : FileTree) (current : Place) (path : Path) :
    tree.outline.find current path = tree.find current path := by
  simp only [find, walk_outline]

theorem find_of_outline {tree other : FileTree} (h : tree.outline = other.outline)
    (current : Place) (path : Path) : tree.find current path = other.find current path := by
  rw [← find_outline, h, find_outline]

theorem list_outline (tree : FileTree) (current : Place) (path : Path) :
    tree.outline.list current path = tree.list current path := by
  simp only [list, find_outline]
  cases tree.find current path with
  | error reason => rfl
  | ok place =>
    simp only [bind, Except.bind, node?_outline]
    cases tree.node? place.node with
    | none => rfl
    | some node => cases node <;> rfl

theorem list_of_outline {tree other : FileTree} (h : tree.outline = other.outline)
    (current : Place) (path : Path) : tree.list current path = other.list current path := by
  rw [← list_outline, h, list_outline]

-- The tree with every file emptied. Names, directories, links and rights are still there.
def emptied (tree : FileTree) : FileTree := ⟨tree.nodes.map (Node.withContent [])⟩

theorem node?_emptied (tree : FileTree) (id : NodeId) :
    tree.emptied.node? id = (tree.node? id).map (Node.withContent []) := by
  simp [node?, emptied]

theorem outline_emptied (tree : FileTree) : tree.emptied.outline = tree.outline := by
  apply eq_of_node?
  intro id
  rw [node?_outline, node?_emptied, node?_outline, Option.map_map]
  congr 1
  funext node
  cases node <;> rfl

theorem find_congr {tree other : FileTree} (h : tree.emptied = other.emptied) (current : Place)
    (path : Path) : tree.find current path = other.find current path :=
  find_of_outline (by rw [← outline_emptied, h, outline_emptied]) current path

theorem node?_modify (tree : FileTree) (id other : NodeId) (f : Node → Node) :
    (tree.modify id f).node? other = (tree.node? other).map fun node =>
      if id = other then f node else node := by
  simp [node?, modify, List.getElem?_modify]

theorem modify_congr {tree : FileTree} {id : NodeId} {f g : Node → Node}
    (h : ∀ node, tree.node? id = some node → f node = g node) :
    tree.modify id f = tree.modify id g := by
  apply eq_of_node?
  intro other
  rw [node?_modify, node?_modify]
  cases hn : tree.node? other with
  | none => rfl
  | some node =>
    by_cases ho : id = other
    · subst ho
      simp [h node hn]
    · simp [ho]

theorem modify_eq_self {tree : FileTree} {id : NodeId} {f : Node → Node}
    (h : ∀ node, tree.node? id = some node → f node = node) : tree.modify id f = tree := by
  rw [modify_congr (g := fun node => node) h]
  apply eq_of_node?
  intro other
  simp [node?_modify]

end FileTree

end TokenMigration
