import TokenMigration.Proofs.Substitution.Separated

namespace TokenMigration.Substitution

variable {α : Type}

variable {pairs done : List (List α × List α)} {p : List α × List α}

theorem Separated.places_apart (hs : Separated pairs) {q : List α × List α} (hp : p ∈ pairs)
    (hq : q ∈ pairs) {text : List α} {i j : Nat} (hi : p.1 <+: text.drop i)
    (hj : q.1 <+: text.drop j) (hij : i < j) : i + p.1.length ≤ j := by
  by_contra hlt
  have hplace : p.1.drop (j - i) <+: text.drop j := by
    have hdrop := hi.drop (j - i)
    rwa [List.drop_drop, Nat.add_sub_cancel' (Nat.le_of_lt hij)] at hdrop
  have htail : p.1.drop (j - i) = p.1.tail.drop (j - i - 1) := by
    rw [List.drop_tail]
    congr 1
    omega
  refine hs.old_tails q hq p hp ⟨p.1.drop (j - i), ?_, ?_, ?_⟩
  · rw [htail]
    exact List.drop_suffix _ _
  · rw [ne_eq, List.drop_eq_nil_iff]
    omega
  · exact List.prefix_or_prefix_of_prefix hplace hj

variable [BEq α] [LawfulBEq α]

theorem Separated.replaceAtOnce_old_append (hs : Separated (p :: done)) (rest : List α) :
    replaceAtOnce done (p.1 ++ rest) = p.1 ++ replaceAtOnce done rest := by
  apply replaceAtOnce_append
  intro q hq
  have hqp : q ≠ p := fun h => (List.nodup_cons.mp hs.nodup).1 (h ▸ hq)
  exact BeginsIn.not_starts
    (hs.old_not_beginsIn (List.mem_cons_of_mem p hq) List.mem_cons_self hqp) rest

theorem Separated.prefix_of_prefix_others (hs : Separated (p :: done)) {h text : List α}
    (he : h <:+ p.1) (hpre : h <+: replaceAtOnce done text) : h <+: text := by
  have hdone := hs.of_cons
  refine prefix_of_prefix_replaceAtOnce hdone.old_ne_nil hdone.old_heads (fun q hq hb => ?_) hpre
  exact hs.new_in_old q (List.mem_cons_of_mem p hq) p List.mem_cons_self (hb.of_suffix he)

-- The new token of a pair that is done has no old token begin in it, unless what follows joins it.
private theorem Separated.not_starts_new (hs : Separated (p :: done)) {q : List α × List α}
    (hq : q ∈ done) {rest : List α} (hj : Unjoined (p :: done) (q.1 ++ rest)) :
    ∀ place, place <:+ q.2 → place ≠ [] → ¬ p.1 <+: place ++ replaceAtOnce done rest := by
  intro place hplace hne hpre
  have hp : p ∈ p :: done := List.mem_cons_self
  have hqp : q ∈ p :: done := List.mem_cons_of_mem p hq
  rcases prefix_or_across hpre with h | ⟨h, -, he, hrest⟩
  · exact hs.old_in_new p hp q hqp (h.isInfix.trans hplace.isInfix)
  · have hrest := hs.prefix_of_prefix_others (he ▸ List.suffix_append place h) hrest
    exact hj q hqp p hp rest (List.suffix_refl _) ⟨place, h, hne, hplace, he, hrest⟩

-- A pass over a text in which other pairs have been replaced at once finds the old tokens that were
-- there from the start, and only these.
theorem Separated.pass_replaceAtOnce (hs : Separated (p :: done)) {text : List α}
    (hj : Unjoined (p :: done) text) :
    replaceAll p.1 p.2 (replaceAtOnce done text) = replaceAtOnce (p :: done) text ∧
      occurrences p.1 (replaceAtOnce done text) = occurrences p.1 text := by
  have hp : p ∈ p :: done := List.mem_cons_self
  have ht := hs.old_ne_nil p hp
  have hdone := hs.of_cons
  induction text using scan_induction hs.old_ne_nil with
  | nil => exact ⟨replaceAll_nil _ ht, rfl⟩
  | found q hq rest ih =>
    obtain ⟨ihr, iho⟩ := ih (hj.of_suffix (List.suffix_append _ _))
    rw [replaceAtOnce_found hs.old_heads hq (hs.old_ne_nil q hq), ← ihr]
    rcases List.mem_cons.mp hq with rfl | hqd
    · rw [hs.replaceAtOnce_old_append, replaceAll_found _ ht, occurrences_found ht,
        occurrences_found ht, iho]
      exact ⟨rfl, rfl⟩
    · have hpq : p ≠ q := fun h => (List.nodup_cons.mp hs.nodup).1 (h ▸ hqd)
      have hnew := hs.not_starts_new hqd hj
      have hold := BeginsIn.not_starts (hs.old_not_beginsIn hp hq hpq) rest
      rw [replaceAtOnce_found hdone.old_heads hqd (hdone.old_ne_nil q hqd),
        replaceAll_append _ ht hnew, occurrences_append hnew, iho, occurrences_append hold]
      exact ⟨rfl, rfl⟩
  | other c rest hnone ih =>
    obtain ⟨ihr, iho⟩ := ih (hj.of_suffix (List.suffix_cons _ _))
    have hother : ∀ q ∈ done, ¬ q.1 <+: c :: rest := fun q hq =>
      hnone q (List.mem_cons_of_mem p hq)
    have hpass : ¬ p.1 <+: c :: replaceAtOnce done rest := by
      rw [← replaceAtOnce_other hother]
      exact fun h => hnone p hp (hs.prefix_of_prefix_others (List.suffix_refl _) h)
    rw [replaceAtOnce_other hother, replaceAtOnce_other hnone, replaceAll_other _ hpass,
      occurrences_other hpass, occurrences_other (hnone p hp), ihr, iho]
    exact ⟨rfl, rfl⟩

-- By induction over the pairs that are still to come, the others having been replaced at once.
theorem Separated.replaceInOrder_replaceAtOnce {later done : List (List α × List α)}
    (hs : Separated (later ++ done)) {text : List α} (hj : Unjoined (later ++ done) text) :
    replaceInOrder later (replaceAtOnce done text) =
      (replaceAtOnce (later.reverse ++ done) text, (later.map fun p => places p.1 text).sum) := by
  induction later generalizing done with
  | nil => rfl
  | cons p later ih =>
    have hperm : (later ++ p :: done).Perm (p :: later ++ done) := List.perm_middle
    have hnext := hs.of_subset hperm.subset (hperm.nodup_iff.mpr hs.nodup)
    have hnow := hnext.of_subset (List.subset_append_right later (p :: done))
      (List.nodup_append.mp hnext.nodup).2.1
    have hp : p ∈ p :: done := List.mem_cons_self
    have hj := hj.of_subset hperm.subset
    obtain ⟨hr, ho⟩ :=
      hnow.pass_replaceAtOnce (hj.of_subset (List.subset_append_right later (p :: done)))
    rw [replaceInOrder_cons p.1 p.2, hr, ho, ih hnext hj,
      occurrences_eq_places (hnow.old_ne_nil p hp) (hnow.old_tails p hp p hp)]
    simp

theorem Separated.replaceAtOnce_congr (hs : Separated pairs) {other : List (List α × List α)}
    (hmem : ∀ p, p ∈ other ↔ p ∈ pairs) (text : List α) :
    replaceAtOnce other text = replaceAtOnce pairs text := by
  have hheads : ∀ p ∈ other, ∀ q ∈ other, p.1 <+: q.1 → p = q := fun p hp q hq =>
    hs.old_heads p ((hmem p).mp hp) q ((hmem q).mp hq)
  induction text using scan_induction hs.old_ne_nil with
  | nil => rfl
  | found p hp rest ih =>
    have hne := hs.old_ne_nil p hp
    rw [replaceAtOnce_found hheads ((hmem p).mpr hp) hne,
      replaceAtOnce_found hs.old_heads hp hne, ih]
  | other c rest hn ih =>
    rw [replaceAtOnce_other hn, replaceAtOnce_other fun p hp => hn p ((hmem p).mp hp), ih]

-- In whatever order the pairs come, the passes do what replacing all old tokens at once does.
theorem Separated.replaceInOrder_perm (hs : Separated pairs) {other : List (List α × List α)}
    (hperm : other.Perm pairs) {text : List α} (hj : Unjoined pairs text) :
    replaceInOrder other text =
      (replaceAtOnce pairs text, (pairs.map fun p => places p.1 text).sum) := by
  have hother : Separated (other ++ []) := by
    rw [List.append_nil]
    exact hs.of_subset hperm.subset (hperm.nodup_iff.mpr hs.nodup)
  have hrun := hother.replaceInOrder_replaceAtOnce (hj.of_subset (by simpa using hperm.subset))
  rw [replaceAtOnce_no_pairs, (hperm.map _).sum_nat] at hrun
  rw [hrun, hs.replaceAtOnce_congr (by simp [hperm.mem_iff])]

end TokenMigration.Substitution
