import Mathlib.Algebra.Ring.Int.Defs
import Mathlib.Data.String.Basic
import TokenMigration.Proofs.Substitution.Leftmost
import TokenMigration.Proofs.Table.Apply

namespace TokenMigration.Table

open Substitution

theorem utf8ByteSize_of_passes {table : Table} {text last : String} {counts : List Nat}
    (h : Passes table.words text.toList last.toList counts) :
    (last.utf8ByteSize : Int) = text.utf8ByteSize +
      (List.zipWith (fun pair (n : Nat) =>
        n * ((pair.new.utf8ByteSize : Int) - pair.old.utf8ByteSize)) table.pairs counts).sum := by
  have hsize := h.measure String.utf8Len String.utf8Len_append
  rw [words, List.zipWith_map_left] at hsize
  simpa only [String.utf8Len_toList] using hsize

-- The table's work is a run of passes, and there is no other one. A pass cuts the text at the
-- leftmost occurrences of the old token, in the only way there is, and puts the new token between
-- the pieces. The empty token stands before every character and at the end.
theorem apply_passes (table : Table) (text : String) :
    (∀ pair ∈ table.pairs, pair.old ≠ "" →
      ∀ copy, ∃! pieces, Leftmost pair.old.toList copy pieces) ∧
    (∀ p ∈ table.words, ∀ copy next, Pass p copy next 0 → next = copy) ∧
    ∃ counts, Passes table.words text.toList (table.apply text).content.toList counts ∧
      (table.apply text).replacements = counts.sum ∧
      (∀ last others, Passes table.words text.toList last others →
        last = (table.apply text).content.toList ∧ others = counts) ∧
      ((table.apply text).content.utf8ByteSize : Int) = text.utf8ByteSize +
        (List.zipWith (fun pair (n : Nat) =>
          n * ((pair.new.utf8ByteSize : Int) - pair.old.utf8ByteSize)) table.pairs counts).sum := by
  refine ⟨fun pair _ hne copy => ?_, fun p _ copy next h => h.eq_of_none, ?_⟩
  · have ht : pair.old.toList ≠ [] := by simpa using hne
    exact ⟨_, leftmost_cut ht copy, fun pieces h => h.unique (leftmost_cut ht copy)⟩
  · obtain ⟨counts, hrun, hsum⟩ := exists_passes table.words text.toList
    rw [← content_apply] at hrun
    exact ⟨counts, hrun, hsum, fun last others h => hrun.unique h, utf8ByteSize_of_passes hrun⟩

-- An old token that overlaps itself, and then the empty one.
theorem apply_passes_overlapping :
    let table := Table.ofList [("aa", "é"), ("", "-")]
    (∃! pieces, Leftmost "aa".toList "aaa".toList pieces) ∧
      ∃ counts, Passes table.words "aaa".toList "-é-a-".toList counts ∧ counts.sum = 4 := by
  intro table
  have happly : table.apply "aaa" = ⟨"-é-a-", 4⟩ := by decide +kernel
  obtain ⟨hcut, -, counts, hrun, hsum, -⟩ := apply_passes table "aaa"
  rw [happly] at hrun hsum
  exact ⟨hcut ⟨"aa", "é"⟩ (by simp [table, ofList]) (by decide) "aaa".toList, counts, hrun, hsum.symm⟩

end TokenMigration.Table
