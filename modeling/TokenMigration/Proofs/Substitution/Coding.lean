import TokenMigration.Proofs.Substitution.Leftmost
import TokenMigration.Proofs.Substitution.Overlap

namespace TokenMigration.Substitution

variable {α β : Type}

-- A code that can be read from anywhere: no code word is the front of another one, and none begins
-- inside of another one.
structure Synchronised (code : α → List β) : Prop where
  ne_nil : ∀ c, code c ≠ []
  heads : ∀ c d, code c <+: code d → c = d
  tails : ∀ c d, ¬ BeginsIn (code c) (code d).tail

-- The pairs of tokens, spelled in the code.
def coded (code : α → List β) (pairs : List (List α × List α)) : List (List β × List β) :=
  pairs.map fun p => (p.1.flatMap code, p.2.flatMap code)

namespace Synchronised

variable {code : α → List β} (hs : Synchronised code)

include hs

theorem flatMap_ne_nil {token : List α} (ht : token ≠ []) : token.flatMap code ≠ [] := by
  obtain ⟨c, rest, rfl⟩ := List.exists_cons_of_ne_nil ht
  simp [hs.ne_nil c]

theorem prefix_of_flatMap_prefix {token text : List α}
    (h : token.flatMap code <+: text.flatMap code) : token <+: text := by
  induction token generalizing text with
  | nil => exact List.nil_prefix
  | cons c token ih =>
    cases text with
    | nil =>
      rw [List.flatMap_nil, List.prefix_nil] at h
      exact absurd h (hs.flatMap_ne_nil (List.cons_ne_nil c token))
    | cons d rest =>
      rw [List.flatMap_cons, List.flatMap_cons] at h
      have hc := (List.prefix_append (code c) _).trans h
      have hcd : c = d := by
        rcases List.prefix_or_prefix_of_prefix hc (List.prefix_append (code d) _) with hp | hp
        · exact hs.heads c d hp
        · exact (hs.heads d c hp).symm
      subst hcd
      exact List.cons_prefix_cons.mpr ⟨rfl, ih ((List.prefix_append_right_inj _).mp h)⟩

-- A token that does not stand at a place of the text does not stand in the code of this place
-- either, neither at its beginning nor further inside.
theorem not_starts_code {token : List α} {c : α} {rest : List α} (ht : token ≠ [])
    (hn : ¬ token <+: c :: rest) :
    ∀ place, place <:+ code c → place ≠ [] →
      ¬ token.flatMap code <+: place ++ rest.flatMap code := by
  intro place hplace hne hp
  obtain ⟨first, tail, hcode⟩ := List.exists_cons_of_ne_nil (hs.ne_nil c)
  rw [hcode, List.suffix_cons_iff, ← hcode] at hplace
  rcases hplace with rfl | hplace
  · rw [← List.flatMap_cons] at hp
    exact hn (hs.prefix_of_flatMap_prefix hp)
  · obtain ⟨d, token, rfl⟩ := List.exists_cons_of_ne_nil ht
    rw [List.flatMap_cons] at hp
    have hd : code d <+: place ++ rest.flatMap code := (List.prefix_append _ _).trans hp
    refine hs.tails d c (.of_prefix_append ?_ hne hd)
    rwa [hcode]

variable [BEq α] [LawfulBEq α] [BEq β] [LawfulBEq β]

theorem replaceAll_flatMap {token : List α} (replacement : List α) (ht : token ≠ [])
    (text : List α) :
    replaceAll (token.flatMap code) (replacement.flatMap code) (text.flatMap code) =
      (replaceAll token replacement text).flatMap code := by
  have hcode := hs.flatMap_ne_nil ht
  induction text using pass_induction ht with
  | nil => rw [replaceAll_nil _ ht, List.flatMap_nil, replaceAll_nil _ hcode]
  | found rest ih =>
    rw [List.flatMap_append, replaceAll_found _ hcode, ih, replaceAll_found _ ht,
      List.flatMap_append]
  | other c rest hn ih =>
    rw [List.flatMap_cons, replaceAll_append _ hcode (hs.not_starts_code ht hn), ih,
      replaceAll_other _ hn, List.flatMap_cons]

theorem occurrences_flatMap {token : List α} (ht : token ≠ []) (text : List α) :
    occurrences (token.flatMap code) (text.flatMap code) = occurrences token text := by
  have hcode := hs.flatMap_ne_nil ht
  induction text using pass_induction ht with
  | nil => rw [List.flatMap_nil, occurrences_nil hcode, occurrences_nil ht]
  | found rest ih => rw [List.flatMap_append, occurrences_found hcode, ih, occurrences_found ht]
  | other c rest hn ih =>
    rw [List.flatMap_cons, occurrences_append (hs.not_starts_code ht hn), ih, occurrences_other hn]

-- A run over a text is a run over its code, with the same number of replacements in each pass.
theorem passes_flatMap {pairs : List (List α × List α)} (hne : ∀ p ∈ pairs, p.1 ≠ [])
    {text last : List α} {counts : List Nat} (h : Passes pairs text last counts) :
    Passes (coded code pairs) (text.flatMap code) (last.flatMap code) counts := by
  induction h with
  | nil => exact .nil
  | @cons p pairs text next last n counts hpass _ ih =>
    obtain ⟨rfl, rfl⟩ := pass_iff.mp hpass
    have ht := hne p List.mem_cons_self
    refine .cons (pass_iff.mpr ?_) (ih fun q hq => hne q (List.mem_cons_of_mem p hq))
    exact ⟨(hs.replaceAll_flatMap p.2 ht text).symm, (hs.occurrences_flatMap ht text).symm⟩

theorem replaceInOrder_flatMap {pairs : List (List α × List α)} (hne : ∀ p ∈ pairs, p.1 ≠ [])
    (text : List α) :
    replaceInOrder (coded code pairs) (text.flatMap code) =
      ((replaceInOrder pairs text).1.flatMap code, (replaceInOrder pairs text).2) := by
  obtain ⟨counts, hrun, hsum⟩ := exists_passes pairs text
  obtain ⟨others, hcoded, hother⟩ := exists_passes (coded code pairs) (text.flatMap code)
  obtain ⟨hlast, hcounts⟩ := (hs.passes_flatMap hne hrun).unique hcoded
  rw [Prod.ext_iff]
  exact ⟨hlast, by rw [hother, hcounts, hsum]⟩

end Synchronised

end TokenMigration.Substitution
