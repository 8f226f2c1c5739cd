import Mathlib.Algebra.Order.BigOperators.Group.List
import Mathlib.Algebra.Order.Group.Nat
import TokenMigration.Proofs.Substitution.Separated

namespace TokenMigration.Substitution

variable {α : Type}

-- A new token in the text ends behind a place, in what the word at this place begins with. The text
-- up to the place is `before`.
def EndsInto (pairs : List (List α × List α)) (before word : List α) : Prop :=
  ∃ p ∈ pairs, ∃ b, b ≠ [] ∧ b <:+ p.2 ∧ b <+: word ∧ p.2 <:+ before ++ b

-- Wherever the word stands in the text, it begins inside the end of a new token.
def Accounted (pairs : List (List α × List α)) (word text : List α) : Prop :=
  ∀ before after, text = before ++ (word ++ after) → EndsInto pairs before word

theorem EndsInto.append_left {pairs : List (List α × List α)} {before word : List α}
    (front : List α) : EndsInto pairs before word → EndsInto pairs (front ++ before) word
  | ⟨p, hp, b, hb, hbs, hbw, hends⟩ => by
    refine ⟨p, hp, b, hb, hbs, hbw, hends.trans ?_⟩
    rw [List.append_assoc]
    exact List.suffix_append _ _

namespace Separated

variable [BEq α] [LawfulBEq α]
variable {pairs : List (List α × List α)} {p q : List α × List α} (hs : Separated pairs)

include hs

theorem places_le_replaceAll (hp : p ∈ pairs) (hq : q ∈ pairs) (hpq : p ≠ q) (text : List α) :
    places q.1 text ≤ places q.1 (replaceAll p.1 p.2 text) := by
  have ht := hs.old_ne_nil p hp
  have hqt := hs.old_ne_nil q hq
  induction text using pass_induction ht with
  | nil => rw [replaceAll_nil _ ht]
  | found rest ih =>
    have hstarts := BeginsIn.not_starts (hs.old_not_beginsIn hq hp hpq.symm) rest
    rw [places_append hstarts, replaceAll_found _ ht]
    have hle := places_append_le hqt p.2 (replaceAll p.1 p.2 rest)
    omega
  | other c rest hn ih =>
    have hpass := replaceAll_other p.2 hn
    by_cases hf : q.1 <+: c :: rest
    · obtain ⟨after, he⟩ := hf
      have hkept := hs.replaceAll_append_old hp hq hpq [] after
      rw [List.nil_append, he, replaceAll_nil _ ht, List.nil_append] at hkept
      have hf' : q.1 <+: c :: replaceAll p.1 p.2 rest := hpass ▸ ⟨_, hkept.symm⟩
      rw [hpass, places_found ⟨after, he⟩, places_found hf']
      omega
    · rw [hpass, places_other hf]
      exact ih.trans (places_le_cons q.1 c _)

-- Every old token of the text is still there when its own pair comes, and is counted then.
theorem sum_places_le_replaceInOrder (text : List α) :
    (pairs.map fun p => places p.1 text).sum ≤ (replaceInOrder pairs text).2 := by
  induction pairs generalizing text with
  | nil => simp [replaceInOrder]
  | cons p later ih =>
    have hp : p ∈ p :: later := List.mem_cons_self
    have hkept : (later.map fun q => places q.1 text).sum ≤
        (later.map fun q => places q.1 (replaceAll p.1 p.2 text)).sum := by
      refine List.sum_le_sum fun q hq => ?_
      have hpq : p ≠ q := fun h => (List.nodup_cons.mp hs.nodup).1 (h ▸ hq)
      exact hs.places_le_replaceAll hp (List.mem_cons_of_mem p hq) hpq text
    rw [replaceInOrder_cons p.1 p.2, List.map_cons, List.sum_cons,
      occurrences_eq_places (hs.old_ne_nil p hp) (hs.old_tails p hp p hp)]
    exact Nat.add_le_add_left (hkept.trans (ih hs.of_cons _)) _

-- An old token that begins inside a new one goes beyond its end.
omit [BEq α] [LawfulBEq α] in
theorem endsInto_of_begins (hp : p ∈ pairs) (hq : q ∈ pairs) {before mid rest : List α}
    (hnew : before ++ mid = p.2) (hm : mid ≠ []) (hpre : q.1 <+: mid ++ rest) :
    EndsInto pairs before q.1 := by
  have hmid : mid <:+ p.2 := hnew ▸ List.suffix_append before mid
  rcases prefix_or_across hpre with hin | ⟨h, -, he, -⟩
  · exact absurd (hin.isInfix.trans hmid.isInfix) (hs.old_in_new q hq p hp)
  · exact ⟨p, hp, mid, hm, hmid, he ▸ List.prefix_append _ _, hnew ▸ List.suffix_refl _⟩

-- Where an old token stands after a pass, it begins inside the new token just put there, or it has
-- stood there before.
theorem traced (hp : p ∈ pairs) (hq : q ∈ pairs) {text before after : List α}
    (h : replaceAll p.1 p.2 text = before ++ (q.1 ++ after)) :
    EndsInto pairs before q.1 ∨
      p ≠ q ∧ ∃ u v, text = u ++ (q.1 ++ v) ∧ before = replaceAll p.1 p.2 u := by
  have ht := hs.old_ne_nil p hp
  induction text using pass_induction ht generalizing before with
  | nil =>
    rw [replaceAll_nil _ ht] at h
    simp [hs.old_ne_nil q hq] at h
  | found rest ih =>
    rw [replaceAll_found _ ht] at h
    have hlater : ∀ mid, replaceAll p.1 p.2 rest = mid ++ (q.1 ++ after) →
        EndsInto pairs (p.2 ++ mid) q.1 ∨ p ≠ q ∧ ∃ u v, p.1 ++ rest = u ++ (q.1 ++ v) ∧
          p.2 ++ mid = replaceAll p.1 p.2 u := by
      intro mid hmid
      rcases ih hmid with hends | ⟨hpq, u, v, rfl, rfl⟩
      · exact .inl (hends.append_left p.2)
      · refine .inr ⟨hpq, p.1 ++ u, v, by simp, ?_⟩
        rw [replaceAll_found _ ht]
    rcases List.append_eq_append_iff.mp h with ⟨mid, rfl, hmid⟩ | ⟨mid, hnew, hmid⟩
    · exact hlater mid hmid
    · by_cases hm : mid = []
      · subst hm
        rw [List.append_nil] at hnew
        simpa only [← hnew, List.append_nil] using hlater [] hmid.symm
      · exact .inl (hs.endsInto_of_begins hp hq hnew.symm hm (hmid ▸ List.prefix_append _ _))
  | other c rest hn ih =>
    cases before with
    | nil =>
      have hpre : q.1 <+: replaceAll p.1 p.2 (c :: rest) := by
        rw [h]
        exact List.prefix_append _ _
      obtain ⟨v, hv⟩ := prefix_of_prefix_replaceAll ht (hs.new_in_old p hp q hq) hpre
      refine .inr ⟨?_, [], v, hv.symm, (replaceAll_nil _ ht).symm⟩
      rintro rfl
      exact hn (hv ▸ List.prefix_append _ _)
    | cons d before =>
      rw [replaceAll_other _ hn, List.cons_append, List.cons.injEq] at h
      obtain ⟨rfl, h⟩ := h
      rcases ih h with hends | ⟨hpq, u, v, rfl, rfl⟩
      · exact .inl (hends.append_left [c])
      · refine .inr ⟨hpq, c :: u, v, rfl, ?_⟩
        rw [replaceAll_other _ fun hu => hn (hu.trans (List.prefix_append (c :: u) _))]

-- In a new token whose end is the front of an old one, no other old token begins in front of that.
omit [BEq α] [LawfulBEq α] in
theorem not_starts_before_old {r : List α × List α} (hp : p ∈ pairs) (hq : q ∈ pairs)
    (hr : r ∈ pairs) {front b : List α} (hnew : front ++ b = r.2) (after : List α) :
    ∀ place, place <:+ front → place ≠ [] → ¬ p.1 <+: place ++ (q.1 ++ after) := by
  intro place hplace hne hpre
  rcases prefix_or_across hpre with hin | ⟨rest, hrest, he, hpre⟩
  · refine hs.old_in_new p hp r hr ?_
    rw [← hnew]
    exact List.infix_append_of_infix_left (hin.isInfix.trans hplace.isInfix)
  · have htail : rest <:+ p.1.tail := by
      rw [he, List.tail_append_of_ne_nil hne]
      exact List.suffix_append _ _
    exact hs.old_tails q hq p hp
      ⟨rest, htail, hrest, List.prefix_or_prefix_of_prefix hpre (List.prefix_append _ _)⟩

-- A new token that ends in an old one is not touched by the pass of another pair.
theorem endsInto_replaceAll (hp : p ∈ pairs) (hq : q ∈ pairs) (hpq : p ≠ q) {u : List α}
    (h : EndsInto pairs u q.1) : EndsInto pairs (replaceAll p.1 p.2 u) q.1 := by
  obtain ⟨r, hr, b, hb, ⟨front, hnew⟩, ⟨h, hold⟩, ⟨x, hx⟩⟩ := h
  have ht := hs.old_ne_nil p hp
  have hu : u = x ++ front := by
    rw [← hnew, ← List.append_assoc] at hx
    exact (List.append_cancel_right hx).symm
  have htail : ¬ BeginsIn r.2 p.1.tail := fun hi =>
    hs.new_in_old r hr p hp (hi.of_suffix (List.tail_suffix _))
  have hjoined : r.2 ++ h = front ++ (q.1 ++ []) := by
    rw [← hnew, ← hold]
    simp
  -- The pass over `u` in front of the old token, once with that token and once with the new one.
  have hpass : replaceAll p.1 p.2 u ++ (q.1 ++ []) =
      (replaceAll p.1 p.2 x ++ front) ++ (q.1 ++ []) := by
    calc replaceAll p.1 p.2 u ++ (q.1 ++ [])
        = replaceAll p.1 p.2 (x ++ (r.2 ++ h)) := by
          rw [hjoined, ← List.append_assoc x, ← hu, hs.replaceAll_append_old hp hq hpq,
            replaceAll_nil _ ht]
      _ = replaceAll p.1 p.2 x ++ replaceAll p.1 p.2 (front ++ ([] ++ (q.1 ++ []))) := by
          rw [replaceAll_append_apart _ ht htail, hjoined, List.nil_append]
      _ = (replaceAll p.1 p.2 x ++ front) ++ (q.1 ++ []) := by
          rw [List.nil_append,
            replaceAll_append _ ht (hs.not_starts_before_old hp hq hr hnew []),
            ← List.nil_append (q.1 ++ []), hs.replaceAll_append_old hp hq hpq, replaceAll_nil _ ht,
            List.append_assoc]
  refine ⟨r, hr, b, hb, ⟨front, hnew⟩, ⟨h, hold⟩, ⟨replaceAll p.1 p.2 x, ?_⟩⟩
  rw [List.append_cancel_right hpass, ← hnew, List.append_assoc]

theorem accounted_replaceAll (hp : p ∈ pairs) (hq : q ∈ pairs) {text : List α}
    (h : p ≠ q → Accounted pairs q.1 text) : Accounted pairs q.1 (replaceAll p.1 p.2 text) := by
  intro before after he
  rcases hs.traced hp hq he with hends | ⟨hpq, u, v, htext, rfl⟩
  · exact hends
  · exact hs.endsInto_replaceAll hp hq hpq (h hpq u v htext)

theorem accounted_of_passed {later : List (List α × List α)} (hl : later ⊆ pairs) (hq : q ∈ pairs)
    {text : List α} (h : Accounted pairs q.1 text) :
    Accounted pairs q.1 (replaceInOrder later text).1 := by
  induction later generalizing text with
  | nil => exact h
  | cons p later ih =>
    rw [replaceInOrder_cons p.1 p.2]
    have hp : p ∈ pairs := hl List.mem_cons_self
    exact ih (fun _ hr => hl (List.mem_cons_of_mem p hr)) (hs.accounted_replaceAll hp hq fun _ => h)

-- After the pass of its own pair an old token is accounted for, and it stays so.
theorem accounted_replaceInOrder {later : List (List α × List α)} (hl : later ⊆ pairs)
    (hq : q ∈ later) (text : List α) : Accounted pairs q.1 (replaceInOrder later text).1 := by
  induction later generalizing text with
  | nil => cases hq
  | cons p later ih =>
    have hlater : later ⊆ pairs := fun _ hr => hl (List.mem_cons_of_mem p hr)
    rw [replaceInOrder_cons p.1 p.2]
    rcases List.mem_cons.mp hq with rfl | hq
    · have hqp : q ∈ pairs := hl List.mem_cons_self
      exact hs.accounted_of_passed hlater hqp
        (hs.accounted_replaceAll hqp hqp fun hne => absurd rfl hne)
    · exact ih hlater hq _

end Separated

end TokenMigration.Substitution
