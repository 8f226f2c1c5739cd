import Mathlib.Logic.Function.Iterate
import TokenMigration.Migration.Run
import TokenMigration.Proofs.Files.Content

namespace TokenMigration

-- What is left of a node when the table has been applied to it a number of times. Only a file that
-- can be read and written and holds text is changed.
def Node.rewritten (table : Table) (times : Nat) : Node → Node
  | .file rights content =>
    match Utf8.decode? content with
    | some text =>
      if rights.read && rights.write then
        .file rights (Utf8.encode ((fun text => (table.apply text).content)^[times] text))
      else .file rights content
    | none => .file rights content
  | node => node

-- Every node keeps its position.
def FileTree.rewritten (tree : FileTree) (table : Table) (times : NodeId → Nat) : FileTree :=
  ⟨tree.nodes.mapIdx fun id node => node.rewritten table (times id)⟩

theorem Utf8.decode?_encode (text : String) : decode? (encode text) = some text :=
  decode?_eq_some_iff.mpr rfl

namespace Node

theorem rewritten_zero (table : Table) (node : Node) : node.rewritten table 0 = node := by
  cases node with
  | directory rights entries => rfl
  | link target => rfl
  | file rights content =>
    simp only [rewritten]
    split
    · rename_i text hd
      have he := Utf8.decode?_eq_some_iff.mp hd
      split <;> simp [he]
    · rfl

theorem rewritten_of_locked (table : Table) (times : Nat) {rights : Rights} (content : Bytes)
    (h : (rights.read && rights.write) = false) :
    (Node.file rights content).rewritten table times = .file rights content := by
  simp only [rewritten, h]
  cases Utf8.decode? content <;> rfl

theorem rewritten_rewritten (table : Table) (m n : Nat) (node : Node) :
    (node.rewritten table m).rewritten table n = node.rewritten table (m + n) := by
  cases node with
  | directory rights entries => rfl
  | link target => rfl
  | file rights content =>
    cases hd : Utf8.decode? content with
    | none => simp [rewritten, hd]
    | some text =>
      by_cases hr : (rights.read && rights.write) = true
      · simp only [rewritten, hd, if_pos hr, Utf8.decode?_encode, Nat.add_comm m n,
          Function.iterate_add_apply]
      · simp only [rewritten, hd, if_neg hr]

theorem withContent_rewritten (table : Table) (times : Nat) (node : Node) :
    (node.rewritten table times).withContent [] = node.withContent [] := by
  cases node with
  | directory rights entries => rfl
  | link target => rfl
  | file rights content =>
    simp only [rewritten]
    split
    · split <;> rfl
    · rfl

end Node

namespace FileTree

theorem node?_rewritten (tree : FileTree) (table : Table) (times : NodeId → Nat) (id : NodeId) :
    (tree.rewritten table times).node? id =
      (tree.node? id).map fun node => node.rewritten table (times id) := by
  simp [node?, rewritten]

-- Only a regular file can come out different.
theorem node?_rewritten_eq_self {tree : FileTree} {table : Table} {times : NodeId → Nat}
    {id : NodeId} (h : ∀ rights content, tree.node? id = some (.file rights content) →
      (Node.file rights content).rewritten table (times id) = .file rights content) :
    (tree.rewritten table times).node? id = tree.node? id := by
  rw [node?_rewritten]
  cases hn : tree.node? id with
  | none => rfl
  | some node =>
    cases node with
    | directory rights entries => rfl
    | link target => rfl
    | file rights content => rw [Option.map_some, h rights content hn]

theorem rewritten_zero (tree : FileTree) (table : Table) :
    (tree.rewritten table fun _ => 0) = tree := by
  apply eq_of_node?
  intro id
  simp [node?_rewritten, Node.rewritten_zero]

theorem rewritten_rewritten (tree : FileTree) (table : Table) (m n : NodeId → Nat) :
    (tree.rewritten table m).rewritten table n = tree.rewritten table fun id => m id + n id := by
  apply eq_of_node?
  intro id
  simp [node?_rewritten, Function.comp_def, Node.rewritten_rewritten]

theorem emptied_rewritten (tree : FileTree) (table : Table) (times : NodeId → Nat) :
    (tree.rewritten table times).emptied = tree.emptied := by
  apply eq_of_node?
  intro id
  simp [node?_emptied, node?_rewritten, Function.comp_def, Node.withContent_rewritten]

theorem modify_rewritten (tree : FileTree) (table : Table) (id : NodeId) :
    tree.modify id (Node.rewritten table 1) =
      tree.rewritten table fun other => if id = other then 1 else 0 := by
  apply eq_of_node?
  intro other
  rw [node?_modify, node?_rewritten]
  by_cases ho : id = other <;> simp [ho, Node.rewritten_zero]

end FileTree

end TokenMigration
