import Mathlib.Algebra.BigOperators.Group.List.Basic
import Mathlib.Algebra.BigOperators.Ring.List
import Mathlib.Algebra.Order.BigOperators.Group.List
import Mathlib.Algebra.Order.Group.Nat
import Mathlib.Algebra.Ring.Nat
import TokenMigration.Proofs.Substitution.Overlap

namespace TokenMigration.Substitution

variable {α : Type}

-- Words that the pairs use up: every old token holds one of them, and a new token neither holds one
-- nor completes one with the text around it.
structure Consumes (pairs : List (List α × List α)) (words : List (List α)) : Prop where
  old_ne_nil : ∀ p ∈ pairs, p.1 ≠ []
  word_ne_nil : ∀ word ∈ words, word ≠ []
  held : ∀ p ∈ pairs, ∃ word ∈ words, word <:+: p.1
  new_end : ∀ p ∈ pairs, ∀ word ∈ words, ¬ BeginsIn word p.2
  new_front : ∀ p ∈ pairs, ∀ word ∈ words, ¬ BeginsIn p.2 word.tail

variable [BEq α]

-- At how many places of a text the words stand in all.
def weight (words : List (List α)) (text : List α) : Nat :=
  (words.map fun word => places word text).sum

theorem places_cons_nil (c : α) (word : List α) : places (c :: word) [] = 0 := rfl

variable [LawfulBEq α]

private theorem places_cons_cons_le (c d : α) (word rest : List α) :
    places (c :: word) (d :: rest) ≤ places word rest := by
  induction rest generalizing d with
  | nil =>
    by_cases hp : c :: word <+: [d]
    · obtain ⟨-, hw⟩ := List.cons_prefix_cons.mp hp
      rw [places_found hp, places_cons_nil, List.prefix_nil.mp hw]
      exact Nat.le_refl 1
    · rw [places_other hp, places_cons_nil]
      exact Nat.zero_le _
  | cons e rest ih =>
    have hle := ih e
    by_cases hp : c :: word <+: d :: e :: rest
    · rw [places_found hp, places_found (List.cons_prefix_cons.mp hp).2]
      omega
    · rw [places_other hp]
      exact hle.trans (places_le_cons word e rest)

-- A word stands at no more places than its end.
theorem places_append_word_le (front word text : List α) :
    places (front ++ word) text ≤ places word text := by
  induction front with
  | nil => exact Nat.le_refl _
  | cons c front ih =>
    refine Nat.le_trans ?_ ih
    cases text with
    | nil => exact Nat.zero_le _
    | cons d rest =>
      exact (places_cons_cons_le c d (front ++ word) rest).trans (places_le_cons _ d rest)

theorem places_le_count (c : α) (word text : List α) :
    places (c :: word) text ≤ text.count c := by
  induction text with
  | nil => exact Nat.le_refl 0
  | cons d rest ih =>
    by_cases hp : c :: word <+: d :: rest
    · obtain ⟨rfl, -⟩ := List.cons_prefix_cons.mp hp
      rw [places_found hp, List.count_cons_self]
      omega
    · rw [places_other hp]
      exact ih.trans (List.count_le_count_cons ..)

section Pass

variable {p : List α × List α} {word : List α}

-- A pass puts the word nowhere, and what the old token holds of it goes with each occurrence.
theorem places_replaceAll_le (ht : p.1 ≠ []) (hw : word ≠ []) (hend : ¬ BeginsIn word p.2)
    (hfront : ¬ BeginsIn p.2 word.tail) (text : List α) :
    places word (replaceAll p.1 p.2 text) + places word p.1 * occurrences p.1 text ≤
      places word text := by
  induction text using pass_induction ht with
  | nil => simp [replaceAll_nil _ ht, occurrences_nil ht]
  | found rest ih =>
    have hle := places_append_le hw p.1 rest
    rw [replaceAll_found _ ht, occurrences_found ht, places_append (BeginsIn.not_starts hend _),
      Nat.mul_add_one]
    omega
  | other c rest hn ih =>
    rw [replaceAll_other _ hn, occurrences_other hn]
    by_cases hp : word <+: c :: replaceAll p.1 p.2 rest
    · obtain ⟨d, tail, rfl⟩ := List.exists_cons_of_ne_nil hw
      obtain ⟨rfl, htail⟩ := List.cons_prefix_cons.mp hp
      have hrest : tail <+: rest := prefix_of_prefix_replaceAll ht hfront htail
      rw [places_found hp, places_found (List.cons_prefix_cons.mpr ⟨rfl, hrest⟩)]
      omega
    · rw [places_other hp]
      exact ih.trans (places_le_cons word c rest)

end Pass

namespace Consumes

variable {pairs : List (List α × List α)} {words : List (List α)} (hc : Consumes pairs words)

include hc

theorem one_le_weight_old {p : List α × List α} (hp : p ∈ pairs) : 1 ≤ weight words p.1 := by
  obtain ⟨word, hword, hin⟩ := hc.held p hp
  have hplaces : 1 ≤ places word p.1 :=
    Nat.one_le_iff_ne_zero.mpr fun hz => (places_eq_zero_iff word p.1).mp hz hin
  exact hplaces.trans (List.le_sum_of_mem (List.mem_map_of_mem hword))

theorem weight_replaceAll_le {p : List α × List α} (hp : p ∈ pairs) (text : List α) :
    weight words (replaceAll p.1 p.2 text) + occurrences p.1 text ≤ weight words text := by
  have hone := Nat.mul_le_mul_right (occurrences p.1 text) (hc.one_le_weight_old hp)
  calc weight words (replaceAll p.1 p.2 text) + occurrences p.1 text
      ≤ weight words (replaceAll p.1 p.2 text) + weight words p.1 * occurrences p.1 text := by omega
    _ = (words.map fun word => places word (replaceAll p.1 p.2 text) +
          places word p.1 * occurrences p.1 text).sum := by
        rw [List.sum_map_add, List.sum_map_mul_right]
        rfl
    _ ≤ weight words text := List.sum_le_sum fun word hword =>
        places_replaceAll_le (hc.old_ne_nil p hp) (hc.word_ne_nil word hword)
          (hc.new_end p hp word hword) (hc.new_front p hp word hword) text

-- Every replacement of a run takes one of the words away.
theorem weight_replaceInOrder_le {later : List (List α × List α)} (hl : later ⊆ pairs)
    (text : List α) :
    weight words (replaceInOrder later text).1 + (replaceInOrder later text).2 ≤
      weight words text := by
  induction later generalizing text with
  | nil => exact Nat.le_refl _
  | cons p later ih =>
    have hpass := hc.weight_replaceAll_le (hl List.mem_cons_self) text
    have hrun := ih (fun _ hq => hl (List.mem_cons_of_mem p hq)) (replaceAll p.1 p.2 text)
    rw [replaceInOrder_cons p.1 p.2]
    simp only
    omega

end Consumes

end TokenMigration.Substitution
