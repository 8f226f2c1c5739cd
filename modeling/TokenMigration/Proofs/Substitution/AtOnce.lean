import Mathlib.Algebra.GroupWithZero.Nat
import TokenMigration.Proofs.Substitution.Pass

namespace TokenMigration.Substitution

variable {α : Type} [BEq α]

-- After an old token the rest of it is skipped.
private def atOnceLoop (pairs : List (List α × List α)) : Nat → List α → List α
  | _, [] => []
  | skip + 1, _ :: rest => atOnceLoop pairs skip rest
  | 0, c :: rest =>
    match pairs.find? (·.1.isPrefixOf (c :: rest)) with
    | some (old, new) => new ++ atOnceLoop pairs (old.length - 1) rest
    | none => c :: atOnceLoop pairs 0 rest

-- Reads the text once and puts for each old token in it the new token of its pair.
def replaceAtOnce (pairs : List (List α × List α)) (text : List α) : List α :=
  atOnceLoop pairs 0 text

-- At how many places of a text a token stands, also where it overlaps itself.
def places (token text : List α) : Nat := text.tails.countP token.isPrefixOf

private theorem atOnceLoop_skip (pairs : List (List α × List α)) (skip : Nat) (text : List α) :
    atOnceLoop pairs skip text = atOnceLoop pairs 0 (text.drop skip) := by
  induction text generalizing skip with
  | nil => cases skip <;> rfl
  | cons c rest ih =>
    cases skip with
    | zero => rfl
    | succ skip => exact ih skip

variable [LawfulBEq α] {pairs : List (List α × List α)}

theorem replaceAtOnce_found (hheads : ∀ p ∈ pairs, ∀ q ∈ pairs, p.1 <+: q.1 → p = q)
    {p : List α × List α} (hp : p ∈ pairs) (hne : p.1 ≠ []) (rest : List α) :
    replaceAtOnce pairs (p.1 ++ rest) = p.2 ++ replaceAtOnce pairs rest := by
  obtain ⟨c, tail, he⟩ := List.exists_cons_of_ne_nil hne
  have hfind : pairs.find? (·.1.isPrefixOf (p.1 ++ rest)) = some p := by
    cases hf : pairs.find? (·.1.isPrefixOf (p.1 ++ rest)) with
    | none =>
      rw [List.find?_eq_none] at hf
      exact absurd (by simp) (hf p hp)
    | some q =>
      have hq := List.find?_some hf
      rw [List.isPrefixOf_iff_prefix] at hq
      have hqp := List.mem_of_find?_eq_some hf
      rcases List.prefix_or_prefix_of_prefix hq (List.prefix_append p.1 rest) with h | h
      · rw [hheads q hqp p hp h]
      · rw [hheads p hp q hqp h]
  rw [he, List.cons_append] at hfind ⊢
  simp only [replaceAtOnce, atOnceLoop, hfind]
  rw [atOnceLoop_skip, he]
  simp

theorem replaceAtOnce_other {c : α} {rest : List α} (hn : ∀ p ∈ pairs, ¬ p.1 <+: c :: rest) :
    replaceAtOnce pairs (c :: rest) = c :: replaceAtOnce pairs rest := by
  have hfind : pairs.find? (·.1.isPrefixOf (c :: rest)) = none := by
    rw [List.find?_eq_none]
    intro p hp hq
    exact hn p hp (List.isPrefixOf_iff_prefix.mp hq)
  simp only [replaceAtOnce, atOnceLoop, hfind]

theorem replaceAtOnce_no_pairs (text : List α) : replaceAtOnce [] text = text := by
  induction text with
  | nil => rfl
  | cons c rest ih => rw [replaceAtOnce_other (by simp), ih]

theorem replaceAll_eq_replaceAtOnce {token : List α} (replacement : List α) (ht : token ≠ [])
    (text : List α) :
    replaceAll token replacement text = replaceAtOnce [(token, replacement)] text := by
  induction text using pass_induction ht with
  | nil => exact replaceAll_nil replacement ht
  | found rest ih =>
    rw [replaceAll_found replacement ht, ih]
    exact (replaceAtOnce_found (p := (token, replacement)) (by simp) (by simp) ht rest).symm
  | other c rest hn ih =>
    rw [replaceAll_other replacement hn, replaceAtOnce_other (by simpa using hn), ih]

theorem places_found {token : List α} {c : α} {rest : List α} (hp : token <+: c :: rest) :
    places token (c :: rest) = places token rest + 1 := by
  simp [places, List.isPrefixOf_iff_prefix.mpr hp]

theorem places_other {token : List α} {c : α} {rest : List α} (hp : ¬ token <+: c :: rest) :
    places token (c :: rest) = places token rest := by
  simpa [places, List.countP_cons] using hp

theorem places_le_cons (token : List α) (c : α) (rest : List α) :
    places token rest ≤ places token (c :: rest) := by
  by_cases hp : token <+: c :: rest
  · rw [places_found hp]
    omega
  · rw [places_other hp]

theorem places_eq_zero_iff (token text : List α) : places token text = 0 ↔ ¬ token <:+: text := by
  simp only [places, List.countP_eq_zero, List.mem_tails, List.isPrefixOf_iff_prefix,
    List.infix_iff_prefix_suffix, not_exists, not_and']

theorem sum_places_eq_zero_iff (pairs : List (List α × List α)) (text : List α) :
    (pairs.map fun p => places p.1 text).sum = 0 ↔ ∀ p ∈ pairs, ¬ p.1 <:+: text := by
  rw [List.sum_eq_zero_iff_forall_eq_nat, List.forall_mem_map]
  exact forall₂_congr fun p _ => places_eq_zero_iff p.1 text

theorem places_append_le {token : List α} (ht : token ≠ []) (u v : List α) :
    places token u + places token v ≤ places token (u ++ v) := by
  induction u with
  | nil =>
    have hz := (places_eq_zero_iff token []).mpr (by simpa using ht)
    simp [hz]
  | cons c u ih =>
    rw [List.cons_append]
    by_cases hp : token <+: c :: u
    · have hq : token <+: c :: (u ++ v) := hp.trans (List.prefix_append (c :: u) v)
      rw [places_found hp, places_found hq]
      omega
    · rw [places_other hp]
      exact ih.trans (places_le_cons token c (u ++ v))

end TokenMigration.Substitution
