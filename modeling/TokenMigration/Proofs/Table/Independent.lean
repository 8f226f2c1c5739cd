import TokenMigration.Proofs.Substitution.Independent
import TokenMigration.Proofs.Table.Order

namespace TokenMigration.Table

open Substitution

theorem apply_apply_of_perm {table other again : Table} (hs : Separated table.words)
    (hperm : other.pairs.Perm table.pairs) (hagain : again.pairs.Perm table.pairs) {text : String}
    (hj : Unjoined table.words text.toList) :
    again.apply (other.apply text).content = ⟨(other.apply text).content, 0⟩ := by
  have hwords : other.words.Perm table.words := hperm.map _
  have hother := hs.of_subset hwords.subset (hwords.nodup_iff.mpr hs.nodup)
  have hsame : again.words.Perm other.words := (hagain.map _).trans hwords.symm
  rw [apply_eq_self_iff, content_apply]
  exact fun p hp => hother.old_absent (hj.of_subset hwords.subset) p (hsame.subset hp)

-- Where no token reaches into another, the order of the pairs does not matter: the old tokens, which
-- do not overlap, are exchanged as if all at once, and a second pass in any order finds nothing.
theorem apply_of_independent {table other again : Table} (hi : Independent table.words)
    (hperm : other.pairs.Perm table.pairs) (hagain : again.pairs.Perm table.pairs)
    (text : String) :
    other.apply text = ⟨table.replaceAtOnce text, table.places text⟩ ∧
      table.OldsApart text ∧
      again.apply (other.apply text).content = ⟨(other.apply text).content, 0⟩ := by
  have hs := hi.separated
  have hj := hi.unjoined text.toList
  exact ⟨apply_of_perm hs hperm hj, oldsApart hs text, apply_apply_of_perm hs hperm hagain hj⟩

-- Old tokens with a common front, the second of them right behind the first, and a new token that
-- begins and ends with the other one.
theorem apply_of_independent_common_front :
    let table := Table.ofList [("old.a", "new"), ("old.b", "new.x.new")]
    let reversed := Table.mk table.pairs.reverse
    Independent table.words ∧
      reversed.apply "old.aold.b old.old.a" = ⟨"newnew.x.new old.new", 3⟩ ∧
      reversed.apply "newnew.x.new old.new" = ⟨"newnew.x.new old.new", 0⟩ := by
  intro table reversed
  have hi : Independent table.words := by constructor <;> decide +kernel
  have hperm : reversed.pairs.Perm table.pairs := List.reverse_perm _
  obtain ⟨hfirst, -, hsecond⟩ := apply_of_independent hi hperm hperm "old.aold.b old.old.a"
  have hresult : table.replaceAtOnce "old.aold.b old.old.a" = "newnew.x.new old.new" ∧
      table.places "old.aold.b old.old.a" = 3 := by decide +kernel
  rw [hresult.1, hresult.2] at hfirst
  rw [hfirst] at hsecond
  exact ⟨hi, hfirst, hsecond⟩

end TokenMigration.Table
