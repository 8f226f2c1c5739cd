import Mathlib.Algebra.BigOperators.Group.Finset.Basic
import Mathlib.Algebra.Order.BigOperators.Group.Finset
import Mathlib.Data.String.Basic
import Mathlib.Logic.Function.Iterate
import TokenMigration.Proofs.Substitution.Weight
import TokenMigration.Proofs.Table.StateGroups

namespace TokenMigration.Table

open Substitution

-- The text after a number of passes of the table.
def afterPasses (table : Table) (n : Nat) (text : String) : String :=
  (fun text => (table.apply text).content)^[n] text

theorem afterPasses_succ (table : Table) (n : Nat) (text : String) :
    table.afterPasses (n + 1) text = (table.apply (table.afterPasses n text)).content :=
  Function.iterate_succ_apply' _ _ _

section Consumed

variable {table : Table} {words : List (List Char)} (hc : Consumes table.words words)

include hc

theorem weight_content_add_le (text : String) :
    weight words (table.apply text).content.toList + (table.apply text).replacements ≤
      weight words text.toList := by
  rw [content_apply, replacements_apply]
  exact hc.weight_replaceInOrder_le (List.Subset.refl _) text.toList

-- The passes together make no more replacements than there are words to use up.
theorem sum_replacements_add_le (text : String) (n : Nat) :
    ∑ i ∈ Finset.range n, (table.apply (table.afterPasses i text)).replacements +
      weight words (table.afterPasses n text).toList ≤ weight words text.toList := by
  induction n with
  | zero => exact (Nat.zero_add _).le
  | succ n ih =>
    have hpass := weight_content_add_le hc (table.afterPasses n text)
    rw [Finset.sum_range_succ, afterPasses_succ]
    omega

-- As long as each pass replaces something, the number of passes is bounded as well.
theorem exists_apply_eq_self (text : String) :
    ∃ n ≤ weight words text.toList,
      table.apply (table.afterPasses n text) = ⟨table.afterPasses n text, 0⟩ := by
  by_contra hnone
  have hone : ∀ i ∈ Finset.range (weight words text.toList + 1),
      1 ≤ (table.apply (table.afterPasses i text)).replacements := by
    intro i hi
    rw [Finset.mem_range] at hi
    rw [Nat.one_le_iff_ne_zero, ne_eq, replacements_eq_zero_iff]
    exact fun h => hnone ⟨i, by omega, h⟩
  have hsum := Finset.sum_le_sum hone
  have hle := sum_replacements_add_le hc text (weight words text.toList + 1)
  rw [← Finset.card_eq_sum_ones, Finset.card_range] at hsum
  omega

end Consumed

-- From a text that a pass leaves alone nothing comes any more.
theorem afterPasses_eq_of_le {table : Table} {text : String} {n m : Nat}
    (h : table.apply (table.afterPasses n text) = ⟨table.afterPasses n text, 0⟩) (hm : n ≤ m) :
    table.afterPasses m text = table.afterPasses n text := by
  induction m, hm using Nat.le_induction with
  | base => rfl
  | succ m _ ih => rw [afterPasses_succ, ih, h]

-- Each old token but the last one holds the first word. The last one keeps its name in the new token,
-- but not what stands in front of the name. The second word begins there with a letter in which no
-- new token ends, so that no junction completes it.
def serviceWords : List (List Char) := ["_service".toList, "ate.notification_scheduler".toList]

theorem stateGroups_consumes : Consumes stateGroups.words serviceWords where
  old_ne_nil := stateGroups_separated.old_ne_nil
  word_ne_nil := by decide +kernel
  held := by decide +kernel
  new_end := by decide +kernel
  new_front := by decide +kernel

-- The names of services in a text.
def services (text : String) : Nat :=
  Substitution.places "_service".toList text.toList +
    Substitution.places "notification_scheduler".toList text.toList

theorem weight_serviceWords_le (text : String) :
    weight serviceWords text.toList ≤ services text := by
  have hle := places_append_word_le "ate.".toList "notification_scheduler".toList text.toList
  simp only [weight, serviceWords, services, List.map_cons, List.map_nil, List.sum_cons,
    List.sum_nil, Nat.add_zero]
  exact Nat.add_le_add_left hle _

theorem length_le_utf8Len (chars : List Char) : chars.length ≤ String.utf8Len chars := by
  induction chars with
  | nil => exact Nat.le_refl 0
  | cons c rest ih =>
    have hpos := c.utf8Size_pos
    rw [List.length_cons, String.utf8Len_cons]
    omega

-- The two names begin with different letters, so no place counts twice.
theorem services_le_utf8ByteSize (text : String) : services text ≤ text.utf8ByteSize := by
  have hother : text.toList.count 'n' ≤ text.toList.countP fun c => decide ¬(c == '_') = true :=
    List.countP_mono_left fun c _ hc => by simp_all
  calc services text
      ≤ text.toList.count '_' + text.toList.count 'n' :=
        Nat.add_le_add (places_le_count _ _ _) (places_le_count _ _ _)
    _ ≤ text.toList.length := by
        rw [List.length_eq_countP_add_countP (· == '_')]
        exact Nat.add_le_add_left hother _
    _ ≤ text.utf8ByteSize := String.utf8Len_toList text ▸ length_le_utf8Len _

end TokenMigration.Table
