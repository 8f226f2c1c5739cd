import TokenMigration.Proofs.Substitution.Overlap

namespace TokenMigration.Substitution

variable {α : Type}

-- Tokens that stand apart from each other. Only the end of a new token may still reach into an old
-- one, namely where an old token begins with what the new one ends with.
structure Separated (pairs : List (List α × List α)) : Prop where
  nodup : pairs.Nodup
  old_ne_nil : ∀ p ∈ pairs, p.1 ≠ []
  old_heads : ∀ p ∈ pairs, ∀ q ∈ pairs, p.1 <+: q.1 → p = q
  old_tails : ∀ p ∈ pairs, ∀ q ∈ pairs, ¬ BeginsIn p.1 q.1.tail
  new_in_old : ∀ p ∈ pairs, ∀ q ∈ pairs, ¬ BeginsIn p.2 q.1
  old_in_new : ∀ p ∈ pairs, ∀ q ∈ pairs, ¬ p.1 <:+: q.2

-- The end of the new token of `p` is the front of the old token of `q`, and the text that follows
-- begins with the rest of it.
def Joins (p q : List α × List α) (after : List α) : Prop :=
  ∃ b h, b ≠ [] ∧ b <:+ p.2 ∧ q.1 = b ++ h ∧ h <+: after

-- No old token of the text is followed by what its new token would complete to an old one.
def Unjoined (pairs : List (List α × List α)) (text : List α) : Prop :=
  ∀ p ∈ pairs, ∀ q ∈ pairs, ∀ after, p.1 ++ after <:+ text → ¬ Joins p q after

theorem Unjoined.of_suffix {pairs : List (List α × List α)} {u v : List α} (hs : u <:+ v)
    (hj : Unjoined pairs v) : Unjoined pairs u :=
  fun p hp q hq after ha => hj p hp q hq after (ha.trans hs)

theorem Unjoined.of_subset {part pairs : List (List α × List α)} {text : List α}
    (hsub : part ⊆ pairs) (hj : Unjoined pairs text) : Unjoined part text :=
  fun p hp q hq => hj p (hsub hp) q (hsub hq)

-- A word that starts with an old token and in which no token of the table begins anywhere else.
structure Led (pairs : List (List α × List α)) (word : List α) : Prop where
  front : ∃ p ∈ pairs, p.1 <+: word
  old_tail : ∀ p ∈ pairs, ¬ BeginsIn p.1 word.tail
  new_free : ∀ p ∈ pairs, ¬ BeginsIn p.2 word

namespace Separated

variable {pairs : List (List α × List α)} {p q : List α × List α} (hs : Separated pairs)

include hs

theorem of_subset {part : List (List α × List α)} (hsub : part ⊆ pairs) (hn : part.Nodup) :
    Separated part where
  nodup := hn
  old_ne_nil p hp := hs.old_ne_nil p (hsub hp)
  old_heads p hp q hq := hs.old_heads p (hsub hp) q (hsub hq)
  old_tails p hp q hq := hs.old_tails p (hsub hp) q (hsub hq)
  new_in_old p hp q hq := hs.new_in_old p (hsub hp) q (hsub hq)
  old_in_new p hp q hq := hs.old_in_new p (hsub hp) q (hsub hq)

theorem eq_of_front (hp : p ∈ pairs) (hq : q ∈ pairs) {text : List α}
    (hpt : p.1 <+: text) (hqt : q.1 <+: text) : p = q := by
  rcases List.prefix_or_prefix_of_prefix hpt hqt with h | h
  · exact hs.old_heads p hp q hq h
  · exact (hs.old_heads q hq p hp h).symm

theorem led (hp : p ∈ pairs) : Led pairs p.1 where
  front := ⟨p, hp, List.prefix_refl _⟩
  old_tail q hq := hs.old_tails q hq p hp
  new_free q hq := hs.new_in_old q hq p hp

-- The front of a led word may be exchanged for a whole old token.
theorem led_append {b h : List α} (hb : b ≠ []) (hq : q ∈ pairs) (hl : Led pairs (b ++ h)) :
    Led pairs (q.1 ++ h) where
  front := ⟨q, hq, List.prefix_append _ _⟩
  old_tail p hp hbegins := by
    rw [List.tail_append_of_ne_nil (hs.old_ne_nil q hq)] at hbegins
    rcases hbegins.of_append with hi | hi
    · exact hs.old_tails p hp q hq hi
    · refine hl.old_tail p hp (hi.of_suffix ?_)
      rw [List.tail_append_of_ne_nil hb]
      exact List.suffix_append _ _
  new_free p hp hbegins := by
    rcases hbegins.of_append with hi | hi
    · exact hs.new_in_old p hp q hq hi
    · exact hl.new_free p hp (hi.of_suffix (List.suffix_append _ _))

-- Where a new token has been put, an old token stands across its end or not at all.
theorem old_in_replaced_iff (hp : p ∈ pairs) (hq : q ∈ pairs) {before after : List α}
    (hbefore : ¬ q.1 <:+: before) (hafter : ¬ q.1 <:+: after) :
    q.1 <:+: before ++ (p.2 ++ after) ↔ Joins p q after := by
  constructor
  · intro h
    rcases List.infix_append_iff_ne_nil.mp h with h | h | ⟨b, h, -, hne, he, -, hpre⟩
    · exact absurd h hbefore
    · rcases List.infix_append_iff_ne_nil.mp h with h | h | ⟨b, h, hb, -, he, hbs, hpre⟩
      · exact absurd h (hs.old_in_new q hq p hp)
      · exact absurd h hafter
      · exact ⟨b, h, hb, hbs, he, hpre⟩
    · have hc := List.prefix_or_prefix_of_prefix hpre (List.prefix_append p.2 after)
      exact absurd ⟨h, ⟨b, he.symm⟩, hne, hc⟩ (hs.new_in_old p hp q hq)
  · rintro ⟨b, h, -, ⟨front, hnew⟩, he, ⟨rest, hafter⟩⟩
    refine ⟨before ++ front, rest, ?_⟩
    rw [← hnew, ← hafter, he]
    simp

omit hs in
theorem of_cons (hs : Separated (p :: pairs)) : Separated pairs :=
  hs.of_subset (List.subset_cons_self p pairs) (List.nodup_cons.mp hs.nodup).2

section Pass

variable {word : List α} (hl : Led pairs word) (hp : p ∈ pairs)

include hl hp

-- The only old token that can begin in a led word is the one at its front.
theorem not_beginsIn_led (hf : ¬ p.1 <+: word) : ¬ BeginsIn p.1 word := by
  rintro ⟨place, hsuf, hnil, hc⟩
  obtain ⟨q, hq, hqw⟩ := hl.front
  cases word with
  | nil => exact hnil (List.suffix_nil.mp hsuf)
  | cons c tail =>
    rcases List.suffix_cons_iff.mp hsuf with rfl | hsuf
    · rcases hc with h | h
      · exact hf (hs.old_heads q hq p hp (hqw.trans h) ▸ hqw)
      · exact hf h
    · exact hl.old_tail p hp ⟨place, hsuf, hnil, hc⟩

omit hl in
theorem old_not_beginsIn (hq : q ∈ pairs) (hpq : p ≠ q) : ¬ BeginsIn p.1 q.1 :=
  hs.not_beginsIn_led (hs.led hq) hp fun h => hpq (hs.old_heads p hp q hq h)

theorem led_not_beginsIn_tail : ¬ BeginsIn word p.1.tail := by
  obtain ⟨q, hq, hqw⟩ := hl.front
  exact fun hb => hs.old_tails q hq p hp (hb.to_front hqw)

theorem led_not_in_new : ¬ word <:+: p.2 := by
  obtain ⟨q, hq, hqw⟩ := hl.front
  exact fun h => hs.old_in_new q hq p hp (hqw.isInfix.trans h)

variable [BEq α] [LawfulBEq α]

-- A led word that a pass leaves in the text has either stood there before, or its front is the end
-- of a new token that the pass has put in front of the rest.
theorem led_of_replaceAll {text : List α} (h : word <:+: replaceAll p.1 p.2 text) :
    (¬ p.1 <+: word ∧ word <:+: text) ∨
      ∃ b rest, b ≠ [] ∧ b <:+ p.2 ∧ word = b ++ rest ∧ p.1 ++ rest <:+: text := by
  have ht := hs.old_ne_nil p hp
  induction text using pass_induction ht with
  | nil =>
    rw [replaceAll_nil _ ht, List.infix_nil] at h
    exact absurd (h ▸ List.nil_infix) (hs.led_not_in_new hl hp)
  | found rest ih =>
    rw [replaceAll_found _ ht, List.infix_append_iff_ne_nil] at h
    rcases h with h | h | ⟨b, d, hb, -, rfl, hbs, hd⟩
    · exact absurd h (hs.led_not_in_new hl hp)
    · rcases ih h with ⟨hf, hw⟩ | ⟨b, d, hb, hbs, he, hw⟩
      · exact .inl ⟨hf, List.infix_append_of_infix_right hw⟩
      · exact .inr ⟨b, d, hb, hbs, he, List.infix_append_of_infix_right hw⟩
    · have hfree : ¬ BeginsIn p.2 d := fun hi =>
        hl.new_free p hp (hi.of_suffix (List.suffix_append b d))
      have hrest := prefix_of_prefix_replaceAll ht hfree hd
      exact .inr ⟨b, d, hb, hbs, rfl, ((List.prefix_append_right_inj _).mpr hrest).isInfix⟩
  | other c rest hn ih =>
    rw [replaceAll_other _ hn, List.infix_cons_iff] at h
    rcases h with h | h
    · rw [← replaceAll_other _ hn] at h
      have hw := prefix_of_prefix_replaceAll ht (hl.new_free p hp) h
      exact .inl ⟨fun hf => hn (hf.trans hw), hw.isInfix⟩
    · rcases ih h with ⟨hf, hw⟩ | ⟨b, d, hb, hbs, he, hw⟩
      · exact .inl ⟨hf, List.infix_cons hw⟩
      · exact .inr ⟨b, d, hb, hbs, he, List.infix_cons hw⟩

-- A pass leaves a led word that begins with another old token where it is.
theorem replaceAll_append_led (hf : ¬ p.1 <+: word) (u v : List α) :
    replaceAll p.1 p.2 (u ++ (word ++ v)) =
      replaceAll p.1 p.2 u ++ (word ++ replaceAll p.1 p.2 v) := by
  have ht := hs.old_ne_nil p hp
  rw [replaceAll_append_apart _ ht (hs.led_not_beginsIn_tail hl hp),
    replaceAll_append _ ht (BeginsIn.not_starts (hs.not_beginsIn_led hl hp hf) v)]

theorem led_replaceAll {text : List α} (hf : ¬ p.1 <+: word) (h : word <:+: text) :
    word <:+: replaceAll p.1 p.2 text := by
  obtain ⟨before, after, rfl⟩ := h
  rw [List.append_assoc, hs.replaceAll_append_led hl hp hf]
  exact List.infix_append' _ _ _

omit hl in
theorem replaceAll_append_old (hq : q ∈ pairs) (hpq : p ≠ q) (u v : List α) :
    replaceAll p.1 p.2 (u ++ (q.1 ++ v)) =
      replaceAll p.1 p.2 u ++ (q.1 ++ replaceAll p.1 p.2 v) :=
  hs.replaceAll_append_led (hs.led hq) hp (fun h => hpq (hs.old_heads p hp q hq h)) u v

omit hl in
theorem joined_replaceAll {text b rest : List α} (hb : b ≠ []) (hbs : b <:+ p.2)
    (hl : Led pairs (b ++ rest)) (h : p.1 ++ rest <:+: text) :
    b ++ rest <:+: replaceAll p.1 p.2 text := by
  obtain ⟨before, after, rfl⟩ := h
  obtain ⟨new, hnew⟩ := hbs
  have ht := hs.old_ne_nil p hp
  have hrest : ¬ BeginsIn p.1 rest := fun hi => hl.old_tail p hp (hi.of_suffix (by
    rw [List.tail_append_of_ne_nil hb]
    exact List.suffix_append _ _))
  have he : replaceAll p.1 p.2 (before ++ (p.1 ++ rest) ++ after) =
      (replaceAll p.1 p.2 before ++ new) ++ ((b ++ rest) ++ replaceAll p.1 p.2 after) := by
    rw [List.append_assoc, List.append_assoc,
      replaceAll_append_apart _ ht (hs.old_tails p hp p hp), replaceAll_found _ ht,
      replaceAll_append _ ht (BeginsIn.not_starts hrest after), ← hnew]
    simp
  rw [he]
  exact List.infix_append' _ _ _

end Pass

end Separated

-- Tokens that all start with the same mark and hold it nowhere else.
structure Marked (mark : List α) (pairs : List (List α × List α)) : Prop where
  nodup : pairs.Nodup
  ne_nil : mark ≠ []
  old_front : ∀ p ∈ pairs, mark <+: p.1
  new_front : ∀ p ∈ pairs, mark <+: p.2
  old_tail : ∀ p ∈ pairs, ¬ BeginsIn mark p.1.tail
  new_tail : ∀ p ∈ pairs, ¬ mark <:+: p.2.tail
  old_heads : ∀ p ∈ pairs, ∀ q ∈ pairs, p.1 <+: q.1 → p = q
  new_heads : ∀ p ∈ pairs, ∀ q ∈ pairs, ¬ p.2 <+: q.1 ∧ ¬ q.1 <+: p.2

namespace Marked

variable {mark : List α} {pairs : List (List α × List α)} (hm : Marked mark pairs)

include hm

theorem old_ne_nil {p : List α × List α} (hp : p ∈ pairs) : p.1 ≠ [] := by
  intro h
  have hf := hm.old_front p hp
  rw [h, List.prefix_nil] at hf
  exact hm.ne_nil hf

theorem new_not_beginsIn {p q : List α × List α} (hp : p ∈ pairs) (hq : q ∈ pairs) :
    ¬ BeginsIn p.2 q.1 := by
  rintro ⟨place, hsuf, hnil, hc⟩
  obtain ⟨c, tail, he⟩ := List.exists_cons_of_ne_nil (hm.old_ne_nil hq)
  rw [he, List.suffix_cons_iff, ← he] at hsuf
  rcases hsuf with rfl | hsuf
  · rcases hc with h | h
    · exact (hm.new_heads p hp q hq).2 h
    · exact (hm.new_heads p hp q hq).1 h
  · have hb : BeginsIn p.2 q.1.tail := ⟨place, by simpa [he] using hsuf, hnil, hc⟩
    exact hm.old_tail q hq (hb.to_front (hm.new_front p hp))

theorem old_not_in_new {p q : List α × List α} (hp : p ∈ pairs) (hq : q ∈ pairs) :
    ¬ p.1 <:+: q.2 := by
  intro h
  cases he : q.2 with
  | nil =>
    rw [he, List.infix_nil] at h
    exact hm.old_ne_nil hp h
  | cons c tail =>
    rw [he, List.infix_cons_iff, ← he] at h
    rcases h with h | h
    · exact (hm.new_heads q hq p hp).2 h
    · have ht : mark <:+: tail := (hm.old_front p hp).isInfix.trans h
      exact hm.new_tail q hq (by rwa [he])

theorem separated : Separated pairs where
  nodup := hm.nodup
  old_ne_nil _ hp := hm.old_ne_nil hp
  old_heads := hm.old_heads
  old_tails p hp q hq hb := hm.old_tail q hq (hb.to_front (hm.old_front p hp))
  new_in_old _ hp _ hq := hm.new_not_beginsIn hp hq
  old_in_new _ hp _ hq := hm.old_not_in_new hp hq

end Marked

end TokenMigration.Substitution
