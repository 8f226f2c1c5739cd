import TokenMigration.Proofs.Substitution.Separated
import TokenMigration.Proofs.Table.Apply
import TokenMigration.Table.StateGroups

namespace TokenMigration.Table

open Substitution

-- What is read off the tokens one by one: they start with "state." and do not hold it again, a new
-- token has one dot more than its old one, and it ends at most in "s" or "st" as if another token
-- were to follow.
private theorem stateGroups_checked : Marked "state.".toList stateGroups.words ∧
    (∀ p ∈ stateGroups.words, p.2.count '.' = p.1.count '.' + 1) ∧
    ∀ p ∈ stateGroups.words, ∀ b ∈ p.2.tails, b ≠ [] → b ≠ p.2 →
      (b <+: "state.".toList ∨ "state.".toList <+: b) → b = "s".toList ∨ b = "st".toList := by
  simp only [words, stateGroups, ofList, List.map_cons, List.map_nil, String.reduceToList]
  refine ⟨?_, by decide +kernel, by decide +kernel⟩
  constructor <;> decide +kernel

theorem stateGroups_marked : Marked "state.".toList stateGroups.words := stateGroups_checked.1

theorem stateGroups_separated : Separated stateGroups.words := stateGroups_marked.separated

-- No sequence of replacements leads back to the text, because each of them adds a dot. The pairs may
-- come in any order and more than once.
theorem content_eq_iff_of_stateGroups {table : Table}
    (hpairs : ∀ pair ∈ table.pairs, pair ∈ stateGroups.pairs) (text : String) :
    (table.apply text).content = text ↔ table.apply text = ⟨text, 0⟩ := by
  have hdots : ∀ p ∈ table.words, p.2.count '.' = p.1.count '.' + 1 := by
    rw [forall_words]
    exact fun pair hpair => stateGroups_checked.2.1 _ (List.mem_map_of_mem (hpairs pair hpair))
  constructor
  · intro h
    have hcount := measure_replaceInOrder (List.count '.') (fun _ _ => List.count_append)
      table.words hdots text.toList
    rw [← content_apply, ← replacements_apply, h] at hcount
    exact (replacements_eq_zero_iff _ _).mp (by omega)
  · intro h
    rw [h]

theorem stateGroups_content_eq_iff (text : String) :
    (stateGroups.apply text).content = text ↔ stateGroups.apply text = ⟨text, 0⟩ :=
  content_eq_iff_of_stateGroups (fun _ h => h) text

-- A new token ends as an old one begins only in "s" or "st".
theorem stateGroups_ends {p q : List Char × List Char} {b : List Char}
    (hp : p ∈ stateGroups.words) (hq : q ∈ stateGroups.words) (hb : b ≠ []) (hbs : b <:+ p.2)
    (hbq : b <+: q.1) : b = "s".toList ∨ b = "st".toList := by
  have hne : b ≠ p.2 := by
    rintro rfl
    exact (stateGroups_marked.new_heads p hp q hq).1 hbq
  exact stateGroups_checked.2.2 p hp b ((List.mem_tails _ _).mpr hbs) hb hne
    (List.prefix_or_prefix_of_prefix hbq (stateGroups_marked.old_front q hq))

-- A new token is completed to an old one only by a text that begins with "tate." or "ate.".
theorem stateGroups_joins {p q : List Char × List Char} {after : List Char}
    (hp : p ∈ stateGroups.words) (hq : q ∈ stateGroups.words) (hj : Joins p q after) :
    "tate.".toList <+: after ∨ "ate.".toList <+: after := by
  obtain ⟨b, h, hb, hbs, he, hafter⟩ := hj
  have hmark := stateGroups_marked.old_front q hq
  have hends := stateGroups_ends hp hq hb hbs (he ▸ List.prefix_append b h)
  rw [he] at hmark
  rcases hends with rfl | rfl
  · have hrest : "tate.".toList <+: h := by simpa using hmark
    exact .inl (hrest.trans hafter)
  · have hrest : "ate.".toList <+: h := by simpa using hmark
    exact .inr (hrest.trans hafter)

theorem stateGroups_unjoined {text : String}
    (hfollow : ∀ pair ∈ stateGroups.pairs, ∀ rest ∈ ["tate.", "ate."],
      ¬ (pair.old ++ rest).toList <:+: text.toList) :
    Unjoined stateGroups.words text.toList := by
  intro p hp q hq after hafter hjoins
  obtain ⟨pair, hpair, rfl⟩ := List.mem_map.mp hp
  have hstands : ∀ rest : String, rest.toList <+: after →
      (pair.old ++ rest).toList <:+: text.toList := by
    intro rest hrest
    have hpre := (List.prefix_append_right_inj pair.old.toList).mpr hrest
    rw [String.toList_append]
    exact hpre.isInfix.trans hafter.isInfix
  rcases stateGroups_joins hp hq hjoins with hrest | hrest
  · exact hfollow pair hpair "tate." (by simp) (hstands _ hrest)
  · exact hfollow pair hpair "ate." (by simp) (hstands _ hrest)

end TokenMigration.Table
