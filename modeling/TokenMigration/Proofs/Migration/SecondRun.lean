import TokenMigration.Proofs.Migration.TextFile
import TokenMigration.Proofs.Table.Missed

namespace TokenMigration

variable {σ : Type}

def Session.Holds (session : Session σ) (path : Path) (text : String) : Prop :=
  ∃ place rights, session.tree.find session.current path = .ok place ∧
    session.tree.node? place.node = some (.file rights (Utf8.encode text)) ∧
    rights.read = true ∧ rights.write = true

namespace Session.Holds

variable {session : Session σ} {path : Path} {text : String}

theorem read (h : session.Holds path text) : session.read path = .ok (Utf8.encode text) := by
  obtain ⟨place, rights, hf, hn, hr, -⟩ := h
  simp [read_of_find hf, hn, hr]

theorem rewriteFile (table : Table) (h : session.Holds path text) :
    Holds ((rewriteFile table false path : StateM (Session σ) _) session).2 path
      (table.apply text).content := by
  obtain ⟨place, rights, hf, hn, hr, hw⟩ := h
  refine ⟨place, rights, ?_, ?_, hr, hw⟩
  · rw [rewriteFile_tree, rewriteFile_current,
      FileTree.find_congr (FileTree.emptied_rewritten session.tree table _), hf]
  · rw [rewriteFile_tree, FileTree.node?_rewritten, hits_singleton_of_find hf, hn]
    simp [Node.rewritten, Utf8.decode?_encode, hr, hw]

end Session.Holds

-- A file is found unchanged, and nothing is written, exactly if the table keeps its text.
theorem rewriteFile_unchanged_iff {session : Session σ} {path : Path} {text : String}
    (h : session.Holds path text) (table : Table) (dryRun : Bool) :
    (rewriteFile table dryRun path : StateM (Session σ) _) session = (.ok .unchanged, session) ↔
      (table.apply text).content = text := by
  constructor
  · intro hrun
    exact (rewriteFile_eq_unchanged_iff h.read table dryRun).mp (congrArg Prod.fst hrun)
  · intro hself
    obtain ⟨place, rights, hf, hn, hr, -⟩ := h
    rw [rewriteFile_of_text ⟨hf, hn⟩ hr, if_pos hself]

-- A second pass over a text, and a second run over a file, find nothing to do exactly if the first
-- one has missed nothing.
theorem stateGroups_second_run_iff :
    (∀ text, Table.stateGroups.apply (Table.stateGroups.apply text).content =
        ⟨(Table.stateGroups.apply text).content, 0⟩ ↔ ¬ Table.stateGroups.Misses text) ∧
      ∀ (session : Session σ) (path : Path) (text : String) (dryRun : Bool),
        session.Holds path text →
        let next := ((rewriteFile .stateGroups false path : StateM (Session σ) _) session).2
        (rewriteFile .stateGroups dryRun path : StateM (Session σ) _) next =
            (.ok .unchanged, next) ↔
          ¬ Table.stateGroups.Misses text := by
  have hpass := Table.apply_apply_eq_self_iff Table.stateGroups_separated
  refine ⟨hpass, fun session path text dryRun h => ?_⟩
  simp only
  rw [rewriteFile_unchanged_iff (h.rewriteFile _), Table.stateGroups_content_eq_iff]
  exact hpass text

-- A file "a" in the top directory, with an old token that no other one follows.
theorem stateGroups_second_run_tax :
    let tree : FileTree :=
      ⟨[.directory .all [([97], 1)], .file .all (Utf8.encode "state.tax_service")]⟩
    let session : Session Unit := { tree, current := [], stdout := () }
    let next := ((rewriteFile .stateGroups false ⟨[97]⟩ : StateM (Session Unit) _) session).2
    (rewriteFile .stateGroups false ⟨[97]⟩ : StateM (Session Unit) _) next =
      (.ok .unchanged, next) := by
  intro tree session next
  have hholds : session.Holds ⟨[97]⟩ "state.tax_service" := ⟨[([97], 1)], .all, rfl, rfl, rfl, rfl⟩
  refine (stateGroups_second_run_iff.2 session ⟨[97]⟩ "state.tax_service" false hholds).mpr ?_
  exact Table.stateGroups_not_misses (by decide +kernel)

-- The first pass has a new token end in front of "tate.product_service", when the pair that takes
-- this old token has been applied.
theorem stateGroups_second_run_event_servicetate :
    Table.stateGroups.apply "state.event_servicetate.product_service" =
        ⟨"state.system.eventstate.product_service", 1⟩ ∧
      Table.stateGroups.apply "state.system.eventstate.product_service" =
        ⟨"state.system.eventstate.commerce.product", 1⟩ := by
  decide +kernel

end TokenMigration
