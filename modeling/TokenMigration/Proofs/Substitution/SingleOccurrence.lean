import TokenMigration.Proofs.Substitution.Separated

namespace TokenMigration.Substitution

variable {α : Type} [BEq α] [LawfulBEq α]
variable {earlier later : List (List α × List α)} {p : List α × List α} {before after : List α}

-- If the old tokens stand at one place of the text in all, then no other one stands anywhere, and
-- the one that does is not in what is around it.
theorem absent_of_single_place (ht : p.1 ≠ [])
    (hone : ((earlier ++ p :: later).map fun q =>
      places q.1 (before ++ (p.1 ++ after))).sum = 1) :
    places p.1 (before ++ (p.1 ++ after)) = 1 ∧
      (∀ q ∈ earlier, ¬ q.1 <:+: before ++ (p.1 ++ after)) ∧
      (∀ q ∈ later, ¬ q.1 <:+: before ++ (p.1 ++ after)) ∧
      ¬ p.1 <:+: before ∧ ¬ p.1 <:+: after := by
  have hself : places p.1 p.1 ≠ 0 := by
    rw [ne_eq, places_eq_zero_iff, not_not]
  have hsplit := places_append_le ht before (p.1 ++ after)
  have hrest := places_append_le ht p.1 after
  simp only [List.map_append, List.map_cons, List.sum_append, List.sum_cons] at hone
  rw [← sum_places_eq_zero_iff, ← sum_places_eq_zero_iff, ← places_eq_zero_iff,
    ← places_eq_zero_iff]
  omega

theorem Separated.replaceAll_single {pairs : List (List α × List α)} (hs : Separated pairs)
    (hp : p ∈ pairs) (hbefore : ¬ p.1 <:+: before) (hafter : ¬ p.1 <:+: after) :
    replaceAll p.1 p.2 (before ++ (p.1 ++ after)) = before ++ (p.2 ++ after) := by
  have ht := hs.old_ne_nil p hp
  rw [replaceAll_append_apart _ ht (hs.old_tails p hp p hp), replaceAll_found _ ht,
    replaceAll_of_absent _ hbefore, replaceAll_of_absent _ hafter]

-- The pairs before do nothing and the pass of the token itself replaces it. What the pairs after
-- find is only what has been joined at the end of the new token.
theorem Separated.replaceInOrder_single_iff (hs : Separated (earlier ++ p :: later))
    (hone : ((earlier ++ p :: later).map fun q =>
      places q.1 (before ++ (p.1 ++ after))).sum = 1) :
    replaceInOrder (earlier ++ p :: later) (before ++ (p.1 ++ after)) =
        (before ++ (p.2 ++ after), 1) ↔
      ∀ q ∈ later, ¬ Joins p q after := by
  have hp : p ∈ earlier ++ p :: later := by simp
  have ht := hs.old_ne_nil p hp
  obtain ⟨hplaces, hearlier, hlater, hbefore, hafter⟩ := absent_of_single_place ht hone
  have hpass := hs.replaceAll_single hp hbefore hafter
  have hfound : occurrences p.1 (before ++ (p.1 ++ after)) = 1 := by
    rw [occurrences_eq_places ht (hs.old_tails p hp p hp), hplaces]
  have hiff : (∀ q ∈ later, ¬ q.1 <:+: before ++ (p.2 ++ after)) ↔
      ∀ q ∈ later, ¬ Joins p q after := by
    refine forall₂_congr fun q hq => not_congr ?_
    apply hs.old_in_replaced_iff hp (by simp [hq])
    · exact fun h => hlater q hq (List.infix_append_of_infix_left h)
    · intro h
      have hrest : q.1 <:+: p.1 ++ after := List.infix_append_of_infix_right h
      exact hlater q hq (List.infix_append_of_infix_right hrest)
  rw [← hiff, replaceInOrder_append, replaceInOrder_eq_self _ _ hearlier,
    replaceInOrder_cons p.1 p.2, hpass, hfound]
  constructor
  · intro h
    rw [← replaceInOrder_count_eq_zero_iff]
    have hcount := congrArg Prod.snd h
    simp only at hcount
    omega
  · intro h
    simp only [replaceInOrder_eq_self _ _ h]

end TokenMigration.Substitution
