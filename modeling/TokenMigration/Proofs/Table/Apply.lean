import TokenMigration.Proofs.Substitution.AtOnce
import TokenMigration.Table

namespace TokenMigration.Table

open Substitution

def words (table : Table) : List (List Char × List Char) :=
  table.pairs.map fun pair => (pair.old.toList, pair.new.toList)

-- The text with all its old tokens exchanged for their new ones in a single reading.
def replaceAtOnce (table : Table) (text : String) : String :=
  String.ofList (Substitution.replaceAtOnce table.words text.toList)

def places (table : Table) (text : String) : Nat :=
  (table.words.map fun p => Substitution.places p.1 text.toList).sum

theorem forall_words {table : Table} {motive : List Char × List Char → Prop} :
    (∀ p ∈ table.words, motive p) ↔
      ∀ pair ∈ table.pairs, motive (pair.old.toList, pair.new.toList) := by
  simp [words]

theorem content_apply (table : Table) (text : String) :
    (table.apply text).content.toList = (replaceInOrder table.words text.toList).1 := by
  simp [apply, words]

theorem replacements_apply (table : Table) (text : String) :
    (table.apply text).replacements = (replaceInOrder table.words text.toList).2 := rfl

theorem apply_eq_iff (table : Table) (text content : String) (replacements : Nat) :
    table.apply text = ⟨content, replacements⟩ ↔
      replaceInOrder table.words text.toList = (content.toList, replacements) := by
  rw [Prod.ext_iff, ← content_apply, ← replacements_apply, String.toList_inj]
  cases table.apply text
  rw [Rewrite.mk.injEq]

-- Without replacements the text is left as it is.
theorem replacements_eq_zero_iff (table : Table) (text : String) :
    (table.apply text).replacements = 0 ↔ table.apply text = ⟨text, 0⟩ := by
  rw [apply_eq_iff, replacements_apply]
  constructor
  · intro h
    exact replaceInOrder_eq_self _ _ ((replaceInOrder_count_eq_zero_iff _ _).mp h)
  · intro h
    rw [h]

theorem apply_eq_self_iff (table : Table) (text : String) :
    table.apply text = ⟨text, 0⟩ ↔ ∀ p ∈ table.words, ¬ p.1 <:+: text.toList := by
  rw [← replacements_eq_zero_iff, replacements_apply, replaceInOrder_count_eq_zero_iff]

end TokenMigration.Table
