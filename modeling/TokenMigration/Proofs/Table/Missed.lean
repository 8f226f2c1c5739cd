import TokenMigration.Proofs.Substitution.Missed
import TokenMigration.Proofs.Table.StateGroups

namespace TokenMigration.Table

open Substitution

-- A text in which a pass of the table leaves an old token, because the pairs that would have to
-- take it have been applied when it comes to stand there.
def Misses (table : Table) (text : String) : Prop :=
  ∃ word, Missed table.words table.words word ∧ word <:+: text.toList

-- A second pass has nothing to do exactly if the first one misses nothing.
theorem apply_apply_eq_self_iff {table : Table} (hs : Separated table.words) (text : String) :
    table.apply (table.apply text).content = ⟨(table.apply text).content, 0⟩ ↔
      ¬ table.Misses text := by
  rw [apply_eq_self_iff, content_apply, Misses,
    ← replaceInOrder_leaves_old_iff hs (List.suffix_refl _)]
  simp

-- Only an old token that "tate." or "ate." follows can lead to one that is missed.
theorem stateGroups_not_misses {text : String}
    (hfollow : ∀ pair ∈ stateGroups.pairs, ∀ rest ∈ ["tate.", "ate."],
      ¬ (pair.old ++ rest).toList <:+: text.toList) : ¬ stateGroups.Misses text := by
  rintro ⟨word, hm, hw⟩
  exact (stateGroups_unjoined hfollow).not_missed stateGroups_separated hw hm

end TokenMigration.Table
