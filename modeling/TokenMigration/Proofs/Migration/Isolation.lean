import TokenMigration.Proofs.Migration.Apart

namespace TokenMigration

variable {σ τ : Type}

namespace Session

-- Two sessions that differ at most in the rights and the contents of some files.
structure AgreeOutside (session : Session σ) (other : Session τ) (files : NodeId → Prop) :
    Prop where
  current : session.current = other.current
  outline : session.tree.outline = other.tree.outline
  node : ∀ id, ¬ files id → session.tree.node? id = other.tree.node? id

namespace AgreeOutside

variable {session : Session σ} {other : Session τ} {files : NodeId → Prop}
  (h : session.AgreeOutside other files)

include h

theorem find (path : Path) :
    session.tree.find session.current path = other.tree.find other.current path := by
  rw [FileTree.find_of_outline h.outline, h.current]

theorem list (path : Path) : session.list path = other.list path := by
  rw [Session.list, Session.list, FileTree.list_of_outline h.outline, h.current]

theorem targets (layout : Layout) : session.targets layout = other.targets layout := by
  simp only [Session.targets, h.list]

theorem opening (layout : Layout) (dryRun : Bool) :
    session.opening layout dryRun = other.opening layout dryRun := by
  simp only [Session.opening, h.list]

theorem hits (paths : List Path) : session.hits paths = other.hits paths := by
  funext id
  simp only [Session.hits, leadsTo, h.find]

theorem file? (path : Path) : session.file? path = other.file? path := by
  have hany : ∀ id, (session.tree.node? id).any Node.isFile =
      (other.tree.node? id).any Node.isFile := by
    intro id
    have he : ∀ node : Node, node.outline.isFile = node.isFile := by
      intro node
      cases node <;> rfl
    have ho := congrArg (fun tree : FileTree => (tree.node? id).any Node.isFile) h.outline
    simpa only [FileTree.node?_outline, Option.any_map, Function.comp_def, he] using ho
  simp only [Session.file?, h.find, hany]

theorem sharesFile (path target : Path) :
    session.SharesFile path target ↔ other.SharesFile path target := by
  simp only [SharesFile, h.file?]

theorem sameAt {path : Path}
    (hpath : ∀ place, session.tree.find session.current path = .ok place → ¬ files place.node) :
    session.SameAt other path where
  find := h.find path
  node hf := h.node _ (hpath _ hf)

theorem node?_triedAll (table : Table) (dryRun : Bool) (targets : List Path) {id : NodeId}
    (hid : ¬ files id) :
    (session.triedAll table dryRun targets).tree.node? id =
      (other.triedAll table dryRun targets).tree.node? id := by
  cases dryRun with
  | true => rw [triedAll_dryRun, triedAll_dryRun, h.node id hid]
  | false =>
    rw [triedAll_tree, triedAll_tree, FileTree.node?_rewritten, FileTree.node?_rewritten,
      h.hits, h.node id hid]

end AgreeOutside

-- The file of a target is not among those of the other targets if no two share one.
theorem not_mem_file?_of_apart {session : Session σ} {targets : List Path}
    (hapart : targets.Pairwise fun path other => ¬ session.SharesFile path other) {i : Nat}
    {path : Path} (hi : targets[i]? = some path) {id : NodeId} (hid : session.file? path = some id) :
    ¬ ∃ target ∈ targets.eraseIdx i, session.file? target = some id := by
  rintro ⟨target, ht, he⟩
  obtain ⟨j, hji, hj⟩ := List.mem_eraseIdx_iff_getElem?.mp ht
  obtain ⟨hilt, rfl⟩ := List.getElem?_eq_some_iff.mp hi
  obtain ⟨hjlt, rfl⟩ := List.getElem?_eq_some_iff.mp hj
  rcases Nat.lt_or_gt_of_ne hji with hlt | hgt
  · exact List.pairwise_iff_getElem.mp hapart j i hjlt hilt hlt ⟨id, he, hid⟩
  · exact List.pairwise_iff_getElem.mp hapart i j hilt hjlt hgt ⟨id, hid, he⟩

theorem AgreeOutside.outcome_of_apart {session : Session σ} {other : Session τ}
    {targets : List Path} {i : Nat} {path : Path}
    (h : session.AgreeOutside other fun id =>
      ∃ target ∈ targets.eraseIdx i, session.file? target = some id)
    (hapart : targets.Pairwise fun path other => ¬ session.SharesFile path other)
    (hi : targets[i]? = some path) (table : Table) (dryRun : Bool) :
    session.outcome table dryRun path = other.outcome table dryRun path := by
  refine (h.sameAt fun place hf => ?_).outcome table dryRun
  rintro ⟨target, ht, he⟩
  obtain ⟨-, -, -, hn⟩ := file?_eq_some_iff.mp he
  exact not_mem_file?_of_apart hapart hi (file?_eq_some_iff.mpr ⟨place, hf, rfl, hn⟩)
    ⟨target, ht, he⟩

end Session

section Outputs

variable {output : Output (StateM (Session σ))} (hq : output.Quiet) (table : Table)
  (layout : Layout) (dryRun : Bool) {session : Session σ}
  (hapart : (session.targets layout).Pairwise fun path other => ¬ session.SharesFile path other)

include hq hapart

theorem items_of_apart :
    ((migrate layout table dryRun output : StateM (Session σ) _) session).1.items =
      (session.opening layout dryRun).items ++ (session.targets layout).map fun path =>
        (session.outcome table dryRun path).item dryRun path := by
  rw [migrate_items hq, Session.outcomes_of_apart table dryRun hapart, List.map_map]
  rfl

theorem getElem?_items_of_apart {i : Nat} {path : Path}
    (hi : (session.targets layout)[i]? = some path) :
    ((migrate layout table dryRun output : StateM (Session σ) _) session).1.items[
        (session.opening layout dryRun).items.length + i]? =
      some ((session.outcome table dryRun path).item dryRun path) := by
  rw [items_of_apart hq table layout dryRun hapart,
    List.getElem?_append_right (Nat.le_add_right _ _), Nat.add_sub_cancel_left,
    List.getElem?_map, hi, Option.map_some]

end Outputs

end TokenMigration
