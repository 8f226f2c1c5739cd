import TokenMigration.Proofs.Migration.FinalTree

namespace TokenMigration

variable {σ τ : Type}

def Node.isFile : Node → Bool
  | .file .. => true
  | _ => false

namespace Session

-- The regular file that a path leads to.
def file? (session : Session σ) (path : Path) : Option NodeId :=
  match session.tree.find session.current path with
  | .ok place => if (session.tree.node? place.node).any Node.isFile then some place.node else none
  | .error _ => none

def SharesFile (session : Session σ) (path other : Path) : Prop :=
  ∃ id, session.file? path = some id ∧ session.file? other = some id

instance (session : Session σ) (path other : Path) : Decidable (session.SharesFile path other) :=
  decidable_of_iff (session.file? path = session.file? other ∧ (session.file? path).isSome) <| by
    constructor
    · rintro ⟨he, hs⟩
      obtain ⟨id, hid⟩ := Option.isSome_iff_exists.mp hs
      exact ⟨id, hid, he ▸ hid⟩
    · rintro ⟨id, hp, ho⟩
      rw [hp, ho]
      exact ⟨rfl, rfl⟩

theorem file?_eq_some_iff {session : Session σ} {path : Path} {id : NodeId} :
    session.file? path = some id ↔ ∃ place, session.tree.find session.current path = .ok place ∧
      place.node = id ∧ (session.tree.node? id).any Node.isFile = true := by
  simp only [file?]
  cases session.tree.find session.current path with
  | error reason => simp
  | ok place =>
    simp only [Except.ok.injEq, exists_eq_left']
    split
    · rename_i hn
      simp only [Option.some.injEq]
      exact ⟨fun h => ⟨h, h ▸ hn⟩, And.left⟩
    · rename_i hn
      simp only [reduceCtorEq, false_iff]
      rintro ⟨rfl, h⟩
      exact hn h

theorem leadsTo_iff {session : Session σ} {path : Path} {id : NodeId} :
    session.leadsTo path id = true ↔
      ∃ place, session.tree.find session.current path = .ok place ∧ place.node = id := by
  simp only [leadsTo]
  cases session.tree.find session.current path <;> simp

-- The node at the end of a path that shares no file with the targets is left as it is.
theorem node?_rewritten_of_apart (table : Table) {session : Session σ} {targets : List Path}
    {path : Path} (h : ∀ target ∈ targets, ¬ session.SharesFile target path) {place : Place}
    (hf : session.tree.find session.current path = .ok place) :
    (session.tree.rewritten table (session.hits targets)).node? place.node =
      session.tree.node? place.node := by
  apply FileTree.node?_rewritten_eq_self
  intro rights content hn
  have hfile : (session.tree.node? place.node).any Node.isFile = true := by rw [hn]; rfl
  have hits : session.hits targets place.node = 0 := by
    rw [Session.hits, List.countP_eq_zero]
    intro target ht hl
    obtain ⟨start, hs, he⟩ := leadsTo_iff.mp hl
    exact h target ht ⟨place.node, file?_eq_some_iff.mpr ⟨start, hs, he, hfile⟩,
      file?_eq_some_iff.mpr ⟨place, hf, rfl, hfile⟩⟩
  rw [hits, Node.rewritten_zero]

theorem triedAll_find (table : Table) (dryRun : Bool) (session : Session σ) (targets : List Path)
    (path : Path) :
    (session.triedAll table dryRun targets).tree.find
        (session.triedAll table dryRun targets).current path =
      session.tree.find session.current path := by
  cases dryRun with
  | true => rw [triedAll_dryRun]
  | false =>
    rw [triedAll_current, triedAll_tree,
      FileTree.find_congr (FileTree.emptied_rewritten session.tree table _)]

-- Trying targets changes nothing for a path that shares no file with them.
theorem triedAll_sameAt (table : Table) (dryRun : Bool) {session : Session σ}
    {targets : List Path} {path : Path}
    (h : ∀ target ∈ targets, ¬ session.SharesFile target path) :
    (session.triedAll table dryRun targets).SameAt session path where
  find := triedAll_find table dryRun session targets path
  node hf := by
    rw [triedAll_find] at hf
    cases dryRun with
    | true => rw [triedAll_dryRun]
    | false => rw [triedAll_tree, node?_rewritten_of_apart table h hf]

-- Targets of which no two share a file come out as if each were the only one.
theorem outcomes_of_apart (table : Table) (dryRun : Bool) {session : Session σ}
    {targets : List Path}
    (h : targets.Pairwise fun path other => ¬ session.SharesFile path other) :
    session.outcomes table dryRun targets =
      targets.map fun path => (path, session.outcome table dryRun path) := by
  apply List.ext_getElem?
  intro i
  rw [getElem?_outcomes, List.getElem?_map]
  cases hi : targets[i]? with
  | none => rfl
  | some path =>
    have hbefore : ∀ target ∈ targets.take i, ¬ session.SharesFile target path := by
      intro target ht
      obtain ⟨hlt, rfl⟩ := List.getElem?_eq_some_iff.mp hi
      obtain ⟨j, hj, rfl⟩ := List.mem_take_iff_getElem.mp ht
      exact List.pairwise_iff_getElem.mp h j i (by omega) hlt (by omega)
    simp only [Option.map_some, (triedAll_sameAt table dryRun hbefore).outcome]

end Session

end TokenMigration
