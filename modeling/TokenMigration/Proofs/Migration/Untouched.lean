import TokenMigration.Proofs.Migration.TextFile
import TokenMigration.Proofs.Table.StateGroups

namespace TokenMigration

variable {σ : Type}

theorem Table.replacements_eq_zero_iff_absent (table : Table) (text : String) :
    (table.apply text).replacements = 0 ↔
      ∀ pair ∈ table.pairs, ¬ pair.old.toList <:+: text.toList := by
  rw [replacements_eq_zero_iff, apply_eq_self_iff, forall_words]

-- Nothing is counted exactly for a text without old tokens, and nothing happens to it. No run of
-- the built-in pairs, in whatever order and however often they come, leads back to its text once it
-- has replaced something. So a file is found unchanged exactly if no old token stands in it, also
-- one that may not be written.
theorem unchanged_iff_no_old :
    (∀ table text,
      ((Table.apply table text).replacements = 0 ↔
        ∀ pair ∈ table.pairs, ¬ pair.old.toList <:+: text.toList) ∧
      ((table.apply text).replacements = 0 → (table.apply text).content = text)) ∧
    (∀ table : Table, (∀ pair ∈ table.pairs, pair ∈ Table.stateGroups.pairs) →
      ∀ text, (table.apply text).content = text ↔ (table.apply text).replacements = 0) ∧
    ∀ (session : Session σ) (path : Path) (bytes : Bytes) (text : String) (dryRun : Bool),
      session.read path = .ok bytes → Utf8.decode? bytes = some text →
      (((rewriteFile .stateGroups dryRun path : StateM (Session σ) _) session).1 = .ok .unchanged ↔
        ∀ pair ∈ Table.stateGroups.pairs, ¬ pair.old.toList <:+: text.toList) := by
  refine ⟨fun table text => ⟨table.replacements_eq_zero_iff_absent text, fun h => ?_⟩,
    fun table hpairs text => ?_, fun session path bytes text dryRun hread hd => ?_⟩
  · rw [(table.replacements_eq_zero_iff text).mp h]
  · rw [Table.content_eq_iff_of_stateGroups hpairs, table.replacements_eq_zero_iff]
  · rw [Utf8.decode?_eq_some_iff.mp hd] at hread
    rw [rewriteFile_eq_unchanged_iff hread, Table.stateGroups_content_eq_iff,
      ← Table.replacements_eq_zero_iff, Table.replacements_eq_zero_iff_absent]

-- The pairs in the opposite order and then once more, and a file "a" that may only be read.
theorem unchanged_iff_no_old_locked :
    let twice : Table := ⟨Table.stateGroups.pairs.reverse ++ Table.stateGroups.pairs⟩
    let text := "let product_service = state.commerce.product.clone();"
    let tree : FileTree :=
      ⟨[.directory .all [([97], 1)], .file ⟨true, false, false⟩ (Utf8.encode text)]⟩
    let session : Session Unit := { tree, current := [], stdout := () }
    (twice.apply "state.event_servicetate.product_service").content ≠
        "state.event_servicetate.product_service" ∧
      session.read ⟨[97]⟩ = .ok (Utf8.encode text) ∧
      ((rewriteFile .stateGroups false ⟨[97]⟩ : StateM (Session Unit) _) session).1 =
        .ok .unchanged := by
  intro twice text tree session
  obtain ⟨-, hback, hfile⟩ := unchanged_iff_no_old
  have hpairs : ∀ pair ∈ twice.pairs, pair ∈ Table.stateGroups.pairs := by
    simp [twice]
  have hcount : (twice.apply "state.event_servicetate.product_service").replacements ≠ 0 := by
    decide +kernel
  have hread : session.read ⟨[97]⟩ = .ok (Utf8.encode text) := rfl
  have habsent : ∀ pair ∈ Table.stateGroups.pairs, ¬ pair.old.toList <:+: text.toList := by
    decide +kernel
  exact ⟨fun h => hcount ((hback twice hpairs _).mp h), hread,
    (hfile session _ _ text false hread (Utf8.decode?_encode text)).mpr habsent⟩

end TokenMigration
