import TokenMigration.Proofs.Substitution.Separated

namespace TokenMigration.Substitution

variable {α : Type}

-- A word that leads to an old token in the text when the `later` pairs have been applied. Either it
-- is an old token whose pair is not among them, or one of them takes its old token from the front,
-- and the end of its new token together with the rest is missed by the pairs that come after it.
inductive Missed (pairs : List (List α × List α)) : List (List α × List α) → List α → Prop
  | passed {later : List (List α × List α)} {p : List α × List α} :
      p ∈ pairs → p ∉ later → Missed pairs later p.1
  | joined {later rest : List (List α × List α)} {p : List α × List α} {b h : List α} :
      p :: rest <:+ later → b ≠ [] → b <:+ p.2 → Missed pairs rest (b ++ h) →
      Missed pairs later (p.1 ++ h)

namespace Missed

variable {pairs later : List (List α × List α)} {word : List α} {p : List α × List α}

theorem led (hs : Separated pairs) (hl : later <:+ pairs) (hm : Missed pairs later word) :
    Led pairs word := by
  induction hm with
  | passed hp _ => exact hs.led hp
  | joined hsuf hb _ _ ih =>
    have hrest := (List.suffix_cons _ _).trans (hsuf.trans hl)
    exact hs.led_append hb ((hsuf.trans hl).subset List.mem_cons_self) (ih hrest)

theorem cons (hf : ¬ p.1 <+: word) (hm : Missed pairs later word) :
    Missed pairs (p :: later) word := by
  cases hm with
  | passed hq hn =>
    refine .passed hq fun hmem => ?_
    rcases List.mem_cons.mp hmem with rfl | hmem
    · exact hf (List.prefix_refl _)
    · exact hn hmem
  | joined hsuf hb hbs hm => exact .joined (hsuf.trans (List.suffix_cons _ _)) hb hbs hm

theorem of_cons (hs : Separated pairs) (hl : p :: later <:+ pairs)
    (hm : Missed pairs (p :: later) word) :
    (¬ p.1 <+: word ∧ Missed pairs later word) ∨
      ∃ b h, b ≠ [] ∧ b <:+ p.2 ∧ word = p.1 ++ h ∧ Missed pairs later (b ++ h) := by
  have hp : p ∈ pairs := hl.subset List.mem_cons_self
  cases hm with
  | passed hq hn =>
    rw [List.mem_cons, not_or] at hn
    exact .inl ⟨fun h => hn.1 (hs.old_heads p hp _ hq h).symm, .passed hq hn.2⟩
  | @joined _ _ q b h hsuf hb hbs hm =>
    rcases List.suffix_cons_iff.mp hsuf with he | hsuf
    · obtain ⟨rfl, rfl⟩ := List.cons.inj he
      exact .inr ⟨b, h, hb, hbs, rfl, hm⟩
    · have hq : q ∈ later := hsuf.subset List.mem_cons_self
      have hn : p ∉ later := (List.nodup_cons.mp (hs.nodup.sublist hl.sublist)).1
      refine .inl ⟨fun hf => hn ?_, .joined hsuf hb hbs hm⟩
      have hqp : q ∈ pairs := hl.subset (List.mem_cons_of_mem _ hq)
      rwa [hs.eq_of_front hp hqp hf (List.prefix_append _ _)]

end Missed

theorem Unjoined.not_missed {pairs : List (List α × List α)} {word text : List α}
    (hs : Separated pairs) (hj : Unjoined pairs text) (hw : word <:+: text) :
    ¬ Missed pairs pairs word := by
  intro hm
  cases hm with
  | passed hp hn => exact hn hp
  | @joined _ rest p b h hsuf hb hbs hm =>
    have hp : p ∈ pairs := hsuf.subset List.mem_cons_self
    obtain ⟨q, hq, hfront⟩ := (hm.led hs ((List.suffix_cons p rest).trans hsuf)).front
    obtain ⟨before, after, he⟩ := hw
    rcases prefix_or_across hfront with hqb | ⟨h', -, hq', hh⟩
    · exact hs.old_in_new q hq p hp (hqb.isInfix.trans hbs.isInfix)
    · exact hj p hp q hq (h ++ after) ⟨before, by simpa using he⟩
        ⟨b, h', hb, hbs, hq', hh.trans (List.prefix_append h after)⟩

variable [BEq α] [LawfulBEq α]

-- Induction over the pairs that are still to be applied. The words that a pass leaves in the text
-- are known from the text before it.
theorem replaceInOrder_leaves_old_iff {pairs later : List (List α × List α)}
    (hs : Separated pairs) (hl : later <:+ pairs) (text : List α) :
    (∃ p ∈ pairs, p.1 <:+: (replaceInOrder later text).1) ↔
      ∃ word, Missed pairs later word ∧ word <:+: text := by
  induction later generalizing text with
  | nil =>
    constructor
    · rintro ⟨p, hp, h⟩
      exact ⟨p.1, .passed hp (by simp), h⟩
    · rintro ⟨word, hm, h⟩
      cases hm with
      | passed hp _ => exact ⟨_, hp, h⟩
      | joined hsuf => simp at hsuf
  | cons p later ih =>
    have hl' : later <:+ pairs := (List.suffix_cons p later).trans hl
    have hp : p ∈ pairs := hl.subset List.mem_cons_self
    simp only [replaceInOrder_cons p.1 p.2 later text]
    rw [ih hl']
    constructor
    · rintro ⟨word, hm, h⟩
      rcases hs.led_of_replaceAll (hm.led hs hl') hp h with ⟨hf, hw⟩ | ⟨b, rest, hb, hbs, rfl, hw⟩
      · exact ⟨word, hm.cons hf, hw⟩
      · exact ⟨p.1 ++ rest, .joined (List.suffix_refl _) hb hbs hm, hw⟩
    · rintro ⟨word, hm, h⟩
      rcases hm.of_cons hs hl with ⟨hf, hlater⟩ | ⟨b, rest, hb, hbs, rfl, hlater⟩
      · exact ⟨word, hlater, hs.led_replaceAll (hlater.led hs hl') hp hf h⟩
      · exact ⟨b ++ rest, hlater, hs.joined_replaceAll hp hb hbs (hlater.led hs hl') h⟩

theorem Separated.old_absent {pairs : List (List α × List α)} (hs : Separated pairs)
    {text : List α} (hj : Unjoined pairs text) :
    ∀ p ∈ pairs, ¬ p.1 <:+: (replaceInOrder pairs text).1 := by
  intro p hp h
  obtain ⟨word, hm, hw⟩ :=
    (replaceInOrder_leaves_old_iff hs (List.suffix_refl pairs) text).mp ⟨p, hp, h⟩
  exact hj.not_missed hs hw hm

end TokenMigration.Substitution
