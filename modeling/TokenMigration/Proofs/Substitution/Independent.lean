import Mathlib.Data.List.Pairwise
import TokenMigration.Proofs.Substitution.Missed
import TokenMigration.Proofs.Substitution.Order

namespace TokenMigration.Substitution

variable {α : Type}

-- A proper end of the first word is a front of the second one.
def EndIsFront (u v : List α) : Prop :=
  ∃ part, part <:+ u ∧ part ≠ u ∧ part ≠ [] ∧ part <+: v

-- A proper front of the first word is an end of the second one.
def FrontIsEnd (u v : List α) : Prop :=
  ∃ part, part <+: u ∧ part ≠ u ∧ part ≠ [] ∧ part <:+ v

instance [DecidableEq α] (u v : List α) : Decidable (EndIsFront u v) :=
  decidable_of_iff (∃ part ∈ u.tails, part ≠ u ∧ part ≠ [] ∧ part <+: v)
    (by simp [EndIsFront, List.mem_tails])

instance [DecidableEq α] (u v : List α) : Decidable (FrontIsEnd u v) :=
  decidable_of_iff (∃ part ∈ u.inits, part ≠ u ∧ part ≠ [] ∧ part <:+ v)
    (by simp [FrontIsEnd, List.mem_inits])

-- Tokens of which none holds another or reaches into another. Only a new token may hold a new one
-- or reach into it.
structure Independent (pairs : List (List α × List α)) : Prop where
  old_ne_nil : ∀ p ∈ pairs, p.1 ≠ []
  new_ne_nil : ∀ p ∈ pairs, p.2 ≠ []
  old_in_old : pairs.Pairwise fun p q => ¬ p.1 <:+: q.1 ∧ ¬ q.1 <:+: p.1
  old_end_old : ∀ p ∈ pairs, ∀ q ∈ pairs, ¬ EndIsFront p.1 q.1
  old_in_new : ∀ p ∈ pairs, ∀ q ∈ pairs, ¬ q.1 <:+: p.2
  new_in_old : ∀ p ∈ pairs, ∀ q ∈ pairs, ¬ p.2 <:+: q.1
  new_end_old : ∀ p ∈ pairs, ∀ q ∈ pairs, ¬ FrontIsEnd q.1 p.2
  old_end_new : ∀ p ∈ pairs, ∀ q ∈ pairs, ¬ EndIsFront q.1 p.2

-- A word that begins in another one begins with all of it, with an end of it, or stands inside.
theorem BeginsIn.cases {word text : List α} :
    BeginsIn word text → text <+: word ∨ EndIsFront text word ∨ word <:+: text
  | ⟨place, hs, hne, .inl hp⟩ => by
    by_cases he : place = text
    · exact .inl (he ▸ hp)
    · exact .inr (.inl ⟨place, hs, he, hne, hp⟩)
  | ⟨_, hs, _, .inr hp⟩ => .inr (.inr (hp.isInfix.trans hs.isInfix))

namespace Independent

variable {pairs : List (List α × List α)} (hi : Independent pairs)

include hi

theorem nodup : pairs.Nodup := by
  refine hi.old_in_old.imp fun h he => h.1 ?_
  rw [he]

theorem eq_of_infix {p q : List α × List α} (hp : p ∈ pairs) (hq : q ∈ pairs) (h : p.1 <:+: q.1) :
    p = q := by
  by_contra hne
  have : Std.Symm fun p q : List α × List α => ¬ p.1 <:+: q.1 ∧ ¬ q.1 <:+: p.1 :=
    ⟨fun _ _ h => h.symm⟩
  exact (hi.old_in_old.forall hp hq hne).1 h

theorem old_tails {p q : List α × List α} (hp : p ∈ pairs) (hq : q ∈ pairs) :
    ¬ BeginsIn p.1 q.1.tail := by
  rintro ⟨place, hs, hne, hc⟩
  have hplace : place <:+ q.1 := hs.trans (List.tail_suffix q.1)
  have hshort : place.length < q.1.length := by
    have hpos := List.length_pos_iff.mpr (hi.old_ne_nil q hq)
    have hle := hs.length_le
    rw [List.length_tail] at hle
    omega
  rcases hc with hpre | hpre
  · refine hi.old_end_old q hq p hp ⟨place, hplace, ?_, hne, hpre⟩
    rintro rfl
    omega
  · obtain rfl := hi.eq_of_infix hp hq (hpre.isInfix.trans hplace.isInfix)
    have hle := hpre.length_le
    omega

theorem separated : Separated pairs where
  nodup := hi.nodup
  old_ne_nil := hi.old_ne_nil
  old_heads _ hp _ hq h := hi.eq_of_infix hp hq h.isInfix
  old_tails _ hp _ hq := hi.old_tails hp hq
  new_in_old p hp q hq hb := by
    rcases hb.cases with h | h | h
    · exact hi.old_in_new p hp q hq h.isInfix
    · exact hi.old_end_new p hp q hq h
    · exact hi.new_in_old p hp q hq h
  old_in_new p hp q hq := hi.old_in_new q hq p hp

-- No text completes a new token to an old one, because no new token ends as an old one begins.
theorem unjoined (text : List α) : Unjoined pairs text := by
  rintro p hp q hq _ _ ⟨b, h, hb, hbs, he, _⟩
  have hpre : b <+: q.1 := he ▸ List.prefix_append b h
  by_cases hbq : b = q.1
  · exact hi.old_in_new p hp q hq (hbq ▸ hbs.isInfix)
  · exact hi.new_end_old p hp q hq ⟨b, hpre, hbq, hb, hbs⟩

end Independent

end TokenMigration.Substitution
