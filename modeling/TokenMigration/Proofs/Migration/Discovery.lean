import TokenMigration.Migration.Layout
import TokenMigration.Proofs.Files.Listing
import TokenMigration.Proofs.Files.Moves

namespace TokenMigration

variable {σ : Type}

namespace Layout

variable {layout : Layout} {names others found : List Bytes}

-- What is to be found among the names of a directory: those that end in the extension, each once,
-- in the order of their bytes.
structure Finds (layout : Layout) (names found : List Bytes) : Prop where
  mem_iff : ∀ name, name ∈ found ↔ name ∈ names ∧ Utf8.encode layout.extension <:+ name
  increasing : found.Pairwise (· < ·)

theorem finds_iff : layout.Finds names found ↔
    (∀ name ∈ found, name ∈ names ∧ Utf8.encode layout.extension <:+ name) ∧
      (∀ name ∈ names, Utf8.encode layout.extension <:+ name → name ∈ found) ∧
      found.Pairwise (· < ·) := by
  constructor
  · intro h
    exact ⟨fun name => (h.mem_iff name).mp,
      fun name hname hend => (h.mem_iff name).mpr ⟨hname, hend⟩, h.increasing⟩
  · rintro ⟨hsound, hcomplete, hincreasing⟩
    exact ⟨fun name => ⟨hsound name, fun h => hcomplete name h.1 h.2⟩, hincreasing⟩

instance : Decidable (layout.Finds names found) := decidable_of_iff _ finds_iff.symm

theorem Finds.nodup (h : layout.Finds names found) : found.Nodup := by
  refine h.increasing.imp fun hlt heq => ?_
  rw [heq] at hlt
  exact List.lt_irrefl _ hlt

theorem Finds.nodup_paths (h : layout.Finds names found) :
    (found.map layout.directory.join).Nodup := by
  rw [List.Nodup, List.pairwise_map]
  exact h.nodup.imp fun hne heq => hne (layout.directory.join_inj.mp heq)

-- The order in which the names are given leaves no trace.
theorem Finds.unique {last : List Bytes} (h : layout.Finds names found)
    (h' : layout.Finds others last) (hsame : ∀ name, name ∈ names ↔ name ∈ others) :
    found = last := by
  have hperm : found.Perm last := by
    rw [List.perm_ext_iff_of_nodup h.nodup h'.nodup]
    intro name
    rw [h.mem_iff, h'.mem_iff, hsame]
  refine hperm.eq_of_pairwise (fun a b _ _ hab hba => ?_) h.increasing h'.increasing
  exact absurd hba (List.lt_asymm hab)

theorem finds_select (layout : Layout) (h : names.Nodup) :
    layout.Finds names (layout.select names) where
  mem_iff name := by
    rw [select, List.mem_mergeSort, List.mem_filter, List.isSuffixOf_iff_suffix]
  increasing := by
    have hperm := List.mergeSort_perm
      (names.filter ((Utf8.encode layout.extension).isSuffixOf ·)) fun a b => a ≤ b
    have hnodup : (layout.select names).Nodup := hperm.nodup_iff.mpr (h.filter _)
    have hsorted : (layout.select names).Pairwise fun a b => decide (a ≤ b) = true := by
      apply List.pairwise_mergeSort
      · intro a b c hab hbc
        simp only [decide_eq_true_eq] at hab hbc ⊢
        exact List.le_trans hab hbc
      · intro a b
        simpa using List.le_total a b
    refine hsorted.imp₂ (fun a b hle hne => ?_) hnodup
    rw [← List.not_le]
    exact fun hge => hne (List.le_antisymm (of_decide_eq_true hle) hge)

theorem discover_run (layout : Layout) (session : Session σ) :
    (layout.discover : StateM (Session σ) _) session =
      (match session.list layout.directory with
        | .ok names => .ok (layout.targets names)
        | .error reason => .error (.fileOperation layout.directory .list reason), session) := by
  simp only [discover, bind, StateT.bind, FileAccess.list]
  cases session.list layout.directory <;> rfl

theorem moves_handler (root : Path) {name : Bytes} (hslash : Path.slash ∉ name)
    (hend : Utf8.encode (handlers root).extension <:+ name) :
    ((handlers root).directory.join name).moves =
      root.moves ++ [.into (Utf8.encode "src"), .into (Utf8.encode "api"),
        .into (Utf8.encode "handlers"), .into name] := by
  have hlong : 2 < name.length := hend.length_le
  have hdirectory : Path.moves ⟨Utf8.encode "src/api/handlers"⟩ =
      [.into (Utf8.encode "src"), .into (Utf8.encode "api"), .into (Utf8.encode "handlers")] := by
    decide
  rw [Path.moves_join, Path.moves_name hslash hlong, handlers, Path.moves_join, hdirectory,
    List.append_assoc]
  rfl

-- The old module stands beside the directory of the handlers and not in it.
theorem nodup_moves_targets (root : Path) (hnodup : names.Nodup)
    (hslash : ∀ name ∈ names, Path.slash ∉ name) :
    (((handlers root).targets names).map Path.moves).Nodup := by
  have hfinds := (handlers root).finds_select hnodup
  have hlegacy : Path.moves ⟨Utf8.encode "src/api/handlers_legacy.rs"⟩ =
      [.into (Utf8.encode "src"), .into (Utf8.encode "api"),
        .into (Utf8.encode "handlers_legacy.rs")] := by
    decide
  have hmoves (name : Bytes) (h : name ∈ (handlers root).select names) :
      (Path.moves ∘ (handlers root).directory.join) name =
        root.moves ++ [.into (Utf8.encode "src"), .into (Utf8.encode "api"),
          .into (Utf8.encode "handlers"), .into name] :=
    have hname := (hfinds.mem_iff name).mp h
    moves_handler root (hslash name hname.1) hname.2
  rw [targets, List.map_append, List.map_map, List.map_congr_left hmoves, handlers,
    List.map_singleton, Path.moves_join, hlegacy, List.singleton_append, List.nodup_cons]
  constructor
  · simp
  · rw [List.Nodup, List.pairwise_map]
    refine hfinds.nodup.imp fun hne heq => hne ?_
    simpa using heq

end Layout

end TokenMigration
