import TokenMigration.Proofs.Substitution.AtOnce

namespace TokenMigration.Substitution

variable {α : Type}

-- From some place of the text on, the word and the text agree as far as both of them reach. So the
-- word stands in the text, or it may stand across the end of the text if the right thing follows.
def BeginsIn (word text : List α) : Prop :=
  ∃ place, place <:+ text ∧ place ≠ [] ∧ (place <+: word ∨ word <+: place)

instance [DecidableEq α] (word text : List α) : Decidable (BeginsIn word text) :=
  decidable_of_iff (∃ place ∈ text.tails, place ≠ [] ∧ (place <+: word ∨ word <+: place))
    (by simp [BeginsIn, List.mem_tails])

namespace BeginsIn

theorem of_suffix {word u v : List α} (hs : u <:+ v) : BeginsIn word u → BeginsIn word v
  | ⟨place, hp, hne, hc⟩ => ⟨place, hp.trans hs, hne, hc⟩

theorem of_prefix_append {word place text rest : List α} (hs : place <:+ text) (hne : place ≠ [])
    (h : word <+: place ++ rest) : BeginsIn word text :=
  ⟨place, hs, hne, (List.prefix_or_prefix_of_prefix h (List.prefix_append _ _)).symm⟩

theorem not_starts {word text : List α} (h : ¬ BeginsIn word text) (rest : List α) :
    ∀ place, place <:+ text → place ≠ [] → ¬ word <+: place ++ rest :=
  fun _ hs hne hp => h (of_prefix_append hs hne hp)

theorem to_front {front word text : List α} (hf : front <+: word) :
    BeginsIn word text → BeginsIn front text
  | ⟨place, hs, hne, .inl hp⟩ => ⟨place, hs, hne, List.prefix_or_prefix_of_prefix hp hf⟩
  | ⟨place, hs, hne, .inr hp⟩ => ⟨place, hs, hne, .inr (hf.trans hp)⟩

theorem of_append {word u v : List α} (h : BeginsIn word (u ++ v)) :
    BeginsIn word u ∨ BeginsIn word v := by
  obtain ⟨place, ⟨before, he⟩, hne, hc⟩ := h
  rcases List.append_eq_append_iff.mp he with ⟨mid, hu, hplace⟩ | ⟨mid, -, hv⟩
  · by_cases hm : mid = []
    · subst hm
      exact .inr ⟨place, by simp [hplace], hne, hc⟩
    · refine .inl ⟨mid, ⟨before, hu.symm⟩, hm, ?_⟩
      have hmid : mid <+: place := hplace ▸ List.prefix_append _ _
      rcases hc with hp | hp
      · exact .inl (hmid.trans hp)
      · exact List.prefix_or_prefix_of_prefix hmid hp
  · exact .inr ⟨place, ⟨mid, hv.symm⟩, hne, hc⟩

end BeginsIn

theorem prefix_or_across {word u v : List α} (h : word <+: u ++ v) :
    word <+: u ∨ ∃ rest, rest ≠ [] ∧ word = u ++ rest ∧ rest <+: v := by
  rcases List.prefix_or_prefix_of_prefix h (List.prefix_append u v) with hp | ⟨rest, rfl⟩
  · exact .inl hp
  · by_cases hr : rest = []
    · simp [hr]
    · exact .inr ⟨rest, hr, rfl, (List.prefix_append_right_inj u).mp h⟩

-- A token that stands across the border of two texts would have the second one begin behind its
-- first element.
private theorem not_prefix_across {token word u v : List α} (h : ¬ BeginsIn word token.tail)
    {c : α} (hp : ¬ token <+: c :: u) : ¬ token <+: c :: (u ++ (word ++ v)) := by
  intro hq
  rcases prefix_or_across (u := c :: u) (by simpa using hq) with hq | ⟨rest, hr, rfl, hw⟩
  · exact hp hq
  · refine h ⟨rest, ⟨u, rfl⟩, hr, ?_⟩
    exact List.prefix_or_prefix_of_prefix hw (List.prefix_append _ _)

section Passes

variable [BEq α] [LawfulBEq α] {token word : List α} (replacement : List α)

theorem replaceAtOnce_append {pairs : List (List α × List α)} {u v : List α}
    (h : ∀ p ∈ pairs, ∀ place, place <:+ u → place ≠ [] → ¬ p.1 <+: place ++ v) :
    replaceAtOnce pairs (u ++ v) = u ++ replaceAtOnce pairs v := by
  induction u with
  | nil => rfl
  | cons c u ih =>
    rw [List.cons_append, List.cons_append, replaceAtOnce_other]
    · rw [ih fun p hp place hs => h p hp place (hs.trans (List.suffix_cons c u))]
    · exact fun p hp => h p hp (c :: u) (List.suffix_refl _) (by simp)

theorem replaceAll_append (ht : token ≠ []) {u v : List α}
    (h : ∀ place, place <:+ u → place ≠ [] → ¬ token <+: place ++ v) :
    replaceAll token replacement (u ++ v) = u ++ replaceAll token replacement v := by
  rw [replaceAll_eq_replaceAtOnce replacement ht, replaceAll_eq_replaceAtOnce replacement ht]
  exact replaceAtOnce_append (by simpa using h)

theorem occurrences_append {u v : List α}
    (h : ∀ place, place <:+ u → place ≠ [] → ¬ token <+: place ++ v) :
    occurrences token (u ++ v) = occurrences token v := by
  induction u with
  | nil => rfl
  | cons c u ih =>
    have hn : ¬ token <+: c :: (u ++ v) := h (c :: u) (List.suffix_refl _) (by simp)
    rw [List.cons_append, occurrences_other hn]
    exact ih fun place hs => h place (hs.trans (List.suffix_cons c u))

theorem replaceAll_append_apart (ht : token ≠ []) (h : ¬ BeginsIn word token.tail)
    (u v : List α) :
    replaceAll token replacement (u ++ (word ++ v)) =
      replaceAll token replacement u ++ replaceAll token replacement (word ++ v) := by
  induction u using pass_induction ht with
  | nil => simp [replaceAll_nil replacement ht]
  | found rest ih =>
    rw [List.append_assoc, replaceAll_found replacement ht, ih, replaceAll_found replacement ht,
      List.append_assoc]
  | other c rest hp ih =>
    rw [List.cons_append, replaceAll_other replacement (not_prefix_across h hp), ih,
      replaceAll_other replacement hp, List.cons_append]

theorem occurrences_append_apart (ht : token ≠ []) (h : ¬ BeginsIn word token.tail) (u v : List α) :
    occurrences token (u ++ (word ++ v)) = occurrences token u + occurrences token (word ++ v) := by
  induction u using pass_induction ht with
  | nil => simp [occurrences_nil ht]
  | found rest ih =>
    rw [List.append_assoc, occurrences_found ht, ih, occurrences_found ht]
    omega
  | other c rest hp ih =>
    rw [List.cons_append, occurrences_other (not_prefix_across h hp), ih, occurrences_other hp]

-- Reading puts no new word at the front unless a new token may begin in the word.
theorem prefix_of_prefix_replaceAtOnce {pairs : List (List α × List α)}
    (hne : ∀ p ∈ pairs, p.1 ≠ []) (hheads : ∀ p ∈ pairs, ∀ q ∈ pairs, p.1 <+: q.1 → p = q)
    (h : ∀ p ∈ pairs, ¬ BeginsIn p.2 word) {text : List α}
    (hp : word <+: replaceAtOnce pairs text) : word <+: text := by
  induction text using scan_induction hne generalizing word with
  | nil => exact hp
  | found p hm rest ih =>
    rw [replaceAtOnce_found hheads hm (hne p hm)] at hp
    by_cases hw : word = []
    · simp [hw]
    · have hc := List.prefix_or_prefix_of_prefix hp (List.prefix_append _ _)
      exact absurd ⟨word, List.suffix_refl _, hw, hc⟩ (h p hm)
  | other c rest hn ih =>
    rw [replaceAtOnce_other hn] at hp
    rcases List.prefix_cons_iff.mp hp with rfl | ⟨tail, rfl, ht⟩
    · simp
    · have hfree : ∀ p ∈ pairs, ¬ BeginsIn p.2 tail := fun p hm hb =>
        h p hm (hb.of_suffix (List.suffix_cons c tail))
      exact List.cons_prefix_cons.mpr ⟨rfl, ih hfree ht⟩

theorem prefix_of_prefix_replaceAll {replacement : List α} (ht : token ≠ [])
    (h : ¬ BeginsIn replacement word) {text : List α}
    (hp : word <+: replaceAll token replacement text) : word <+: text := by
  rw [replaceAll_eq_replaceAtOnce replacement ht] at hp
  exact prefix_of_prefix_replaceAtOnce (by simpa using ht) (by simp) (by simpa using h) hp

theorem places_append {u v : List α}
    (h : ∀ place, place <:+ u → place ≠ [] → ¬ token <+: place ++ v) :
    places token (u ++ v) = places token v := by
  induction u with
  | nil => rfl
  | cons c u ih =>
    have hn : ¬ token <+: c :: (u ++ v) := h (c :: u) (List.suffix_refl _) (by simp)
    rw [List.cons_append, places_other hn]
    exact ih fun place hs => h place (hs.trans (List.suffix_cons c u))

theorem occurrences_eq_places (ht : token ≠ []) (hself : ¬ BeginsIn token token.tail)
    (text : List α) : occurrences token text = places token text := by
  induction text using pass_induction ht with
  | nil =>
    rw [occurrences_nil ht]
    exact ((places_eq_zero_iff token []).mpr (by simpa using ht)).symm
  | found rest ih =>
    rw [occurrences_found ht, ih, ← places_append (BeginsIn.not_starts hself rest)]
    obtain ⟨c, tail, rfl⟩ := List.exists_cons_of_ne_nil ht
    exact (places_found (List.prefix_append (c :: tail) rest)).symm
  | other c rest hp ih => rw [occurrences_other hp, places_other hp, ih]

end Passes

end TokenMigration.Substitution
