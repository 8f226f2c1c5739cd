import Mathlib.Algebra.GroupWithZero.Nat
import TokenMigration.Proofs.Substitution.Overlap

namespace TokenMigration.Substitution

variable {α : Type}

-- No old token holds the element, so none reaches over it, whatever stands on its sides.
def Separates (c : α) (pairs : List (List α × List α)) : Prop :=
  ∀ p ∈ pairs, p.1 ≠ [] ∧ c ∉ p.1

variable {c : α} {token : List α}

theorem not_beginsIn_of_not_mem (hc : c ∉ token) : ¬ BeginsIn [c] token.tail := by
  rintro ⟨place, hs, hne, hp⟩
  have hmem : c ∈ place := by
    rcases hp with hp | hp
    · rcases List.prefix_cons_iff.mp hp with rfl | ⟨rest, rfl, -⟩
      · exact absurd rfl hne
      · exact List.mem_cons_self
    · exact hp.subset List.mem_cons_self
  exact hc ((hs.trans (List.tail_suffix token)).subset hmem)

theorem not_prefix_of_not_mem (ht : token ≠ []) (hc : c ∉ token) (text : List α) :
    ¬ token <+: c :: text := by
  intro hp
  rcases List.prefix_cons_iff.mp hp with rfl | ⟨rest, rfl, -⟩
  · exact ht rfl
  · exact hc List.mem_cons_self

variable [BEq α] [LawfulBEq α]

theorem replaceAll_append_cons (replacement : List α) (ht : token ≠ []) (hc : c ∉ token)
    (u v : List α) :
    replaceAll token replacement (u ++ c :: v) =
      replaceAll token replacement u ++ c :: replaceAll token replacement v := by
  have hsplit := replaceAll_append_apart replacement ht (not_beginsIn_of_not_mem hc) u v
  rw [List.singleton_append, replaceAll_other _ (not_prefix_of_not_mem ht hc v)] at hsplit
  exact hsplit

theorem occurrences_append_cons (ht : token ≠ []) (hc : c ∉ token) (u v : List α) :
    occurrences token (u ++ c :: v) = occurrences token u + occurrences token v := by
  have hsplit := occurrences_append_apart ht (not_beginsIn_of_not_mem hc) u v
  rw [List.singleton_append, occurrences_other (not_prefix_of_not_mem ht hc v)] at hsplit
  exact hsplit

section Separated

variable {pairs : List (List α × List α)} (hs : Separates c pairs)

include hs

-- The two sides of the element are rewritten on their own, pass by pass. They may grow, and new
-- tokens may hold the element.
theorem replaceInOrder_append_cons (u v : List α) :
    replaceInOrder pairs (u ++ c :: v) =
      ((replaceInOrder pairs u).1 ++ c :: (replaceInOrder pairs v).1,
        (replaceInOrder pairs u).2 + (replaceInOrder pairs v).2) := by
  induction pairs generalizing u v with
  | nil => rfl
  | cons p pairs ih =>
    obtain ⟨ht, hc⟩ := hs p List.mem_cons_self
    have hrest : Separates c pairs := fun q hq => hs q (List.mem_cons_of_mem p hq)
    simp only [replaceInOrder_cons p.1 p.2, replaceAll_append_cons p.2 ht hc,
      occurrences_append_cons ht hc, ih hrest, Prod.mk.injEq, true_and]
    omega

theorem replaceInOrder_intercalate (pieces : List (List α)) :
    replaceInOrder pairs ([c].intercalate pieces) =
      ([c].intercalate (pieces.map fun piece => (replaceInOrder pairs piece).1),
        (pieces.map fun piece => (replaceInOrder pairs piece).2).sum) := by
  induction pieces with
  | nil => exact replaceInOrder_eq_self _ _ fun p hp h => (hs p hp).1 (List.infix_nil.mp h)
  | cons piece pieces ih =>
    cases pieces with
    | nil => simp
    | cons next pieces =>
      rw [List.intercalate_cons_cons, List.append_assoc, List.singleton_append,
        replaceInOrder_append_cons hs, ih]
      simp

end Separated

end TokenMigration.Substitution
