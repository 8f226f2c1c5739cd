import TokenMigration.Proofs.Migration.SecondRun
import TokenMigration.Proofs.Migration.TextFile
import TokenMigration.Proofs.Table.Lines

namespace TokenMigration

variable {σ : Type}

namespace Table

-- What the built-in pairs make of the lines of a text, each of them alone.
def migratedLines (text : String) : List String :=
  (lines text).map fun line => (stateGroups.apply line).content

def lineReplacements (text : String) : Nat :=
  ((lines text).map fun line => (stateGroups.apply line).replacements).sum

private theorem stateGroups_newlines :
    (∀ pair ∈ stateGroups.pairs, pair.old ≠ "" ∧ '\n' ∉ pair.old.toList) ∧
      ∀ pair ∈ stateGroups.pairs, '\n' ∉ pair.new.toList := by
  decide +kernel

theorem stateGroups_apply_lines (text : String) :
    stateGroups.apply text = ⟨ofLines (migratedLines text), lineReplacements text⟩ := by
  have hrun := apply_ofLines stateGroups_newlines.1 (lines text)
  rwa [ofLines_lines] at hrun

theorem lines_stateGroups_content (text : String) :
    lines (stateGroups.apply text).content = migratedLines text :=
  lines_content stateGroups_newlines.1 stateGroups_newlines.2 text

theorem stateGroups_content_eq_iff_lines (text : String) :
    (stateGroups.apply text).content = text ↔
      ∀ line ∈ lines text, (stateGroups.apply line).content = line := by
  constructor
  · intro h
    have hlines := lines_stateGroups_content text
    rw [h, migratedLines] at hlines
    exact List.map_inj_left.mp (hlines.symm.trans (List.map_id _).symm)
  · intro h
    have hlines : migratedLines text = lines text := by
      rw [migratedLines, List.map_congr_left h, List.map_id']
    rw [stateGroups_apply_lines, hlines, ofLines_lines]

end Table

open Table

-- A character that stands in no old token keeps apart what is on its two sides. So a text, and a
-- file that holds it, comes out as its lines do one by one, and no line is lost or added.
theorem apply_line_by_line :
    (∀ (table : Table) (c : Char), (∀ pair ∈ table.pairs, pair.old ≠ "" ∧ c ∉ pair.old.toList) →
      ∀ s t : String, table.apply (s ++ String.singleton c ++ t) =
        ⟨(table.apply s).content ++ String.singleton c ++ (table.apply t).content,
          (table.apply s).replacements + (table.apply t).replacements⟩) ∧
    (∀ text, stateGroups.apply text = ⟨ofLines (migratedLines text), lineReplacements text⟩ ∧
      lines (stateGroups.apply text).content = migratedLines text ∧
      (lines (stateGroups.apply text).content).length = (lines text).length) ∧
    ∀ (session : Session σ) (path : Path) (text : String), session.Holds path text →
      let run := (rewriteFile .stateGroups false path : StateM (Session σ) _) session
      run.2.Holds path (ofLines (migratedLines text)) ∧
      (run.1 = .ok .unchanged ∧ (∀ line ∈ lines text, (stateGroups.apply line).content = line) ∨
        run.1 = .ok (.updated (lineReplacements text)) ∧
          ∃ line ∈ lines text, (stateGroups.apply line).content ≠ line) := by
  refine ⟨fun table c hc s t => apply_append_singleton_append hc s t, fun text => ?_,
    fun session path text h => ?_⟩
  · refine ⟨stateGroups_apply_lines text, lines_stateGroups_content text, ?_⟩
    rw [lines_stateGroups_content, migratedLines, List.length_map]
  · intro run
    have hholds := h.rewriteFile stateGroups
    rw [stateGroups_apply_lines] at hholds
    refine ⟨hholds, ?_⟩
    obtain ⟨place, rights, hf, hn, hr, hw⟩ := h
    have hrun : run = _ := rewriteFile_of_text ⟨hf, hn⟩ hr stateGroups false
    clear_value run
    rw [if_neg Bool.false_ne_true, if_pos hw] at hrun
    by_cases hself : (stateGroups.apply text).content = text
    · rw [if_pos hself] at hrun
      exact .inl ⟨congrArg Prod.fst hrun, (stateGroups_content_eq_iff_lines text).mp hself⟩
    · rw [if_neg hself, stateGroups_apply_lines] at hrun
      rw [stateGroups_content_eq_iff_lines] at hself
      exact .inr ⟨congrArg Prod.fst hrun, by simpa using hself⟩

-- A new token that holds the separator, and a file "a" of four lines of which one is changed and the
-- last one is empty.
theorem apply_line_by_line_growing :
    let table := Table.ofList [("a", "x;y"), ("y", "a")]
    let text := "use axum;\r\n\nstate.tax_service\n"
    let tree : FileTree := ⟨[.directory .all [([97], 1)], .file .all (Utf8.encode text)]⟩
    let session : Session Unit := { tree, current := [], stdout := () }
    let run := (rewriteFile .stateGroups false ⟨[97]⟩ : StateM (Session Unit) _) session
    table.apply ("a" ++ String.singleton ';' ++ "ya") = ⟨"x;a;ax;a", 5⟩ ∧
      (lines text).length = 4 ∧
      run.2.Holds ⟨[97]⟩ (ofLines ["use axum;\r", "", "state.commerce.taxes", ""]) ∧
      run.1 = .ok (.updated 1) := by
  intro table text tree session run
  have hrun : (rewriteFile .stateGroups false ⟨[97]⟩ : StateM (Session Unit) _) session = run := rfl
  clear_value run
  obtain ⟨happend, -, hfile⟩ := apply_line_by_line
  have hold : ∀ pair ∈ table.pairs, pair.old ≠ "" ∧ ';' ∉ pair.old.toList := by decide +kernel
  have hsides : table.apply "a" = ⟨"x;a", 2⟩ ∧ table.apply "ya" = ⟨"ax;a", 3⟩ := by decide +kernel
  have hlines : lines text = ["use axum;\r", "", "state.tax_service", ""] := by decide +kernel
  have hmigrated : migratedLines text = ["use axum;\r", "", "state.commerce.taxes", ""] ∧
      lineReplacements text = 1 := by decide +kernel
  have hholds : session.Holds ⟨[97]⟩ text := ⟨[([97], 1)], .all, rfl, rfl, rfl, rfl⟩
  obtain ⟨hnext, hresult⟩ := hfile session ⟨[97]⟩ text hholds
  rw [hrun, hmigrated.1] at hnext
  rw [hrun, hmigrated.2, hlines] at hresult
  refine ⟨?_, by rw [hlines]; rfl, hnext, ?_⟩
  · rw [happend table ';' hold, hsides.1, hsides.2]
    decide +kernel
  · have hchanged : (stateGroups.apply "state.tax_service").content ≠ "state.tax_service" := by
      decide +kernel
    rcases hresult with ⟨-, hall⟩ | ⟨hupdated, -⟩
    · exact absurd (hall "state.tax_service" (by simp)) hchanged
    · exact hupdated

end TokenMigration
