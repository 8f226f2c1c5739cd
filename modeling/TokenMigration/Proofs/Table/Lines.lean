import TokenMigration.Proofs.Substitution.Separator
import TokenMigration.Proofs.Table.StateGroups

namespace TokenMigration

-- What stands between the line breaks of a text. Behind the last one there may be nothing.
def lines (text : String) : List String := (text.toList.splitOn '\n').map String.ofList

def ofLines (lines : List String) : String := "\n".intercalate lines

theorem toList_ofLines (pieces : List String) :
    (ofLines pieces).toList = ['\n'].intercalate (pieces.map String.toList) := by
  rw [ofLines, String.toList_intercalate]
  simp

theorem ofLines_lines (text : String) : ofLines (lines text) = text := by
  rw [← String.toList_inj, toList_ofLines, lines, List.map_map]
  simp

theorem lines_ofLines {pieces : List String} (hne : pieces ≠ [])
    (h : ∀ piece ∈ pieces, '\n' ∉ piece.toList) : lines (ofLines pieces) = pieces := by
  have hsplit : (['\n'].intercalate (pieces.map String.toList)).splitOn '\n' =
      pieces.map String.toList :=
    List.splitOn_intercalate '\n' (List.forall_mem_map.mpr h) (by simpa using hne)
  rw [lines, toList_ofLines, hsplit, List.map_map]
  simp

theorem lines_ne_nil (text : String) : lines text ≠ [] := by
  simp [lines, List.splitOn_ne_nil]

private theorem not_mem_of_mem_splitOn {c : Char} {text piece : List Char}
    (h : piece ∈ text.splitOn c) : c ∉ piece := by
  induction text generalizing piece with
  | nil =>
    rw [List.splitOn_nil, List.mem_singleton] at h
    simp [h]
  | cons d rest ih =>
    rw [List.splitOn_cons_eq_if_modifyHead] at h
    by_cases hd : d = c
    · rw [if_pos (by simpa using hd), List.mem_cons] at h
      rcases h with rfl | h
      · simp
      · exact ih h
    · rw [if_neg (by simpa using hd)] at h
      obtain ⟨first, others, he⟩ := List.exists_cons_of_ne_nil (List.splitOn_ne_nil c rest)
      rw [he, List.modifyHead_cons, List.mem_cons] at h
      rcases h with rfl | h
      · rw [List.mem_cons, not_or]
        exact ⟨fun hc => hd hc.symm, ih (he ▸ List.mem_cons_self)⟩
      · exact ih (he ▸ List.mem_cons_of_mem first h)

theorem newline_not_mem_line {text line : String} (h : line ∈ lines text) : '\n' ∉ line.toList := by
  obtain ⟨piece, hpiece, rfl⟩ := List.mem_map.mp h
  rw [String.toList_ofList]
  exact not_mem_of_mem_splitOn hpiece

namespace Table

open Substitution

section Separated

variable {table : Table} {c : Char} (hc : ∀ pair ∈ table.pairs, pair.old ≠ "" ∧ c ∉ pair.old.toList)

include hc

theorem separates_words : Separates c table.words := by
  rw [Separates, forall_words]
  intro pair hpair
  exact ⟨by simpa using (hc pair hpair).1, (hc pair hpair).2⟩

theorem apply_append_singleton_append (s t : String) :
    table.apply (s ++ String.singleton c ++ t) =
      ⟨(table.apply s).content ++ String.singleton c ++ (table.apply t).content,
        (table.apply s).replacements + (table.apply t).replacements⟩ := by
  rw [apply_eq_iff]
  simp only [String.toList_append, String.toList_singleton, List.append_assoc,
    List.singleton_append, content_apply, replacements_apply]
  exact replaceInOrder_append_cons (separates_words hc) s.toList t.toList

end Separated

section Lines

variable {table : Table} (hc : ∀ pair ∈ table.pairs, pair.old ≠ "" ∧ '\n' ∉ pair.old.toList)

include hc

theorem apply_ofLines (pieces : List String) :
    table.apply (ofLines pieces) =
      ⟨ofLines (pieces.map fun line => (table.apply line).content),
        (pieces.map fun line => (table.apply line).replacements).sum⟩ := by
  rw [apply_eq_iff, toList_ofLines, toList_ofLines, replaceInOrder_intercalate (separates_words hc),
    List.map_map, List.map_map, List.map_map]
  simp only [Function.comp_def, content_apply, replacements_apply]

-- Where no new token brings in a line break, each line comes out as one line.
theorem lines_content (hnew : ∀ pair ∈ table.pairs, '\n' ∉ pair.new.toList) (text : String) :
    lines (table.apply text).content = (lines text).map fun line => (table.apply line).content := by
  have hbreaks : ∀ p ∈ table.words, p.2.count '\n' = p.1.count '\n' + 0 := by
    rw [forall_words]
    intro pair hpair
    rw [List.count_eq_zero.mpr (hnew pair hpair), List.count_eq_zero.mpr (hc pair hpair).2]
  have hkept : ∀ line ∈ lines text, '\n' ∉ (table.apply line).content.toList := by
    intro line hline
    rw [← List.count_eq_zero, content_apply,
      measure_replaceInOrder (List.count '\n') (fun _ _ => List.count_append) _ hbreaks,
      List.count_eq_zero.mpr (newline_not_mem_line hline)]
    omega
  have hcontent := congrArg Rewrite.content (apply_ofLines hc (lines text))
  rw [ofLines_lines] at hcontent
  rw [hcontent, lines_ofLines (by simpa using lines_ne_nil text) (List.forall_mem_map.mpr hkept)]

end Lines

end Table

end TokenMigration
