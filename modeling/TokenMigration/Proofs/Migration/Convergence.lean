import TokenMigration.Proofs.Migration.SecondRun
import TokenMigration.Proofs.Table.Convergence

namespace TokenMigration

variable {σ : Type}

-- The session after a file has been rewritten a number of times.
def Session.afterRuns (session : Session σ) (table : Table) (path : Path) (n : Nat) : Session σ :=
  (fun session => ((rewriteFile table false path : StateM (Session σ) _) session).2)^[n] session

-- Each run leaves the text of one more pass in the file.
theorem Session.Holds.afterRuns {session : Session σ} {path : Path} {text : String}
    (h : session.Holds path text) (table : Table) (n : Nat) :
    (session.afterRuns table path n).Holds path (table.afterPasses n text) := by
  induction n with
  | zero => exact h
  | succ n ih =>
    rw [Session.afterRuns, Function.iterate_succ_apply', Table.afterPasses_succ]
    exact ih.rewriteFile table

-- Repeated passes come to a text that they leave alone, and so do repeated runs over a file. There
-- are no more passes up to it, and no more replacements in all of them, than the text names
-- services. A number of replacements fits wherever the size of the text does.
theorem stateGroups_converges :
    (∀ text, ∃ n ≤ Table.services text, ∀ m, n ≤ m →
      Table.stateGroups.apply (Table.stateGroups.afterPasses m text) =
        ⟨Table.stateGroups.afterPasses n text, 0⟩) ∧
    (∀ text n, ∑ i ∈ Finset.range n,
      (Table.stateGroups.apply (Table.stateGroups.afterPasses i text)).replacements ≤
        Table.services text) ∧
    (∀ text bits, text.utf8ByteSize < 2 ^ bits →
      (Table.stateGroups.apply text).replacements < 2 ^ bits) ∧
    ∀ (session : Session σ) (path : Path) (text : String), session.Holds path text →
      ∃ n ≤ Table.services text,
        let last := session.afterRuns .stateGroups path n
        (rewriteFile .stateGroups false path : StateM (Session σ) _) last =
          (.ok .unchanged, last) := by
  have hsum := Table.sum_replacements_add_le Table.stateGroups_consumes
  have hend : ∀ text, ∃ n ≤ Table.services text,
      Table.stateGroups.apply (Table.stateGroups.afterPasses n text) =
        ⟨Table.stateGroups.afterPasses n text, 0⟩ := by
    intro text
    obtain ⟨n, hn, hself⟩ := Table.exists_apply_eq_self Table.stateGroups_consumes text
    exact ⟨n, hn.trans (Table.weight_serviceWords_le text), hself⟩
  refine ⟨fun text => ?_, fun text n => ?_, fun text bits hsize => ?_, fun session path text h => ?_⟩
  · obtain ⟨n, hn, hself⟩ := hend text
    refine ⟨n, hn, fun m hm => ?_⟩
    rw [Table.afterPasses_eq_of_le hself hm, hself]
  · have hweight := Table.weight_serviceWords_le text
    have hle := hsum text n
    omega
  · have hone := Table.weight_content_add_le Table.stateGroups_consumes text
    have hweight := Table.weight_serviceWords_le text
    have hbytes := Table.services_le_utf8ByteSize text
    omega
  · obtain ⟨n, hn, hself⟩ := hend text
    refine ⟨n, hn, ?_⟩
    simp only
    rw [rewriteFile_unchanged_iff (h.afterRuns _ n), hself]

-- A file "a" in the top directory. The first run completes the old token that the second one takes.
theorem stateGroups_converges_event_service :
    let text := "state.event_servicetate.event_service"
    let tree : FileTree := ⟨[.directory .all [([97], 1)], .file .all (Utf8.encode text)]⟩
    let session : Session Unit := { tree, current := [], stdout := () }
    Table.stateGroups.apply text = ⟨"state.system.eventstate.event_service", 1⟩ ∧
      ∃ n ≤ 2,
        let last := session.afterRuns .stateGroups ⟨[97]⟩ n
        (rewriteFile .stateGroups false ⟨[97]⟩ : StateM (Session Unit) _) last =
          (.ok .unchanged, last) := by
  intro text tree session
  have hholds : session.Holds ⟨[97]⟩ text := ⟨[([97], 1)], .all, rfl, rfl, rfl, rfl⟩
  have hservices : Table.services text = 2 := by decide +kernel
  have hruns := stateGroups_converges.2.2.2 session ⟨[97]⟩ text hholds
  rw [hservices] at hruns
  exact ⟨by decide +kernel, hruns⟩

end TokenMigration
