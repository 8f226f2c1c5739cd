import TokenMigration.Proofs.Substitution.Order
import TokenMigration.Proofs.Table.StateGroups

namespace TokenMigration.Table

open Substitution

theorem apply_of_perm {table other : Table} (hs : Separated table.words)
    (hperm : other.pairs.Perm table.pairs) {text : String}
    (hj : Unjoined table.words text.toList) :
    other.apply text = ⟨table.replaceAtOnce text, table.places text⟩ := by
  have hwords : other.words.Perm table.words := hperm.map _
  rw [apply_eq_iff, hs.replaceInOrder_perm hwords hj, replaceAtOnce, String.toList_ofList, places]

-- No two old tokens stand at one place of the text, and none reaches into another.
def OldsApart (table : Table) (text : String) : Prop :=
  ∀ pair ∈ table.pairs, ∀ other ∈ table.pairs, ∀ i j,
    pair.old.toList <+: text.toList.drop i → other.old.toList <+: text.toList.drop j →
    (i = j → pair = other) ∧ (i < j → i + pair.old.length ≤ j)

theorem oldsApart {table : Table} (hs : Separated table.words) (text : String) :
    table.OldsApart text := by
  intro pair hpair other hother i j hi hj
  have hp : (pair.old.toList, pair.new.toList) ∈ table.words := List.mem_map_of_mem hpair
  have hq : (other.old.toList, other.new.toList) ∈ table.words := List.mem_map_of_mem hother
  constructor
  · rintro rfl
    have hsame := hs.eq_of_front hp hq hi hj
    rwa [Prod.mk.injEq, String.toList_inj, String.toList_inj, ← Pair.mk.injEq] at hsame
  · intro hij
    rw [← String.length_toList]
    exact hs.places_apart hp hq hi hj hij

-- The passes over a text in which no new token is completed to an old one exchange each old token
-- for its own new one, in whatever order the pairs come. The old tokens do not overlap.
theorem stateGroups_apply_of_perm (table : Table) (text : String)
    (hperm : table.pairs.Perm stateGroups.pairs)
    (hfollow : ∀ pair ∈ stateGroups.pairs, ∀ rest ∈ ["tate.", "ate."],
      ¬ (pair.old ++ rest).toList <:+: text.toList) :
    table.apply text = ⟨stateGroups.replaceAtOnce text, stateGroups.places text⟩ ∧
      ∀ pair ∈ stateGroups.pairs, ∀ other ∈ stateGroups.pairs, ∀ i j,
        pair.old.toList <+: text.toList.drop i → other.old.toList <+: text.toList.drop j →
        (i = j → pair = other) ∧ (i < j → i + pair.old.length ≤ j) := by
  exact ⟨apply_of_perm stateGroups_separated hperm (stateGroups_unjoined hfollow),
    oldsApart stateGroups_separated text⟩

-- A run with the pairs in the opposite order. The new token at the front ends in "s".
theorem stateGroups_apply_reversed :
    (Table.mk stateGroups.pairs.reverse).apply "state.event_service, state.sms_service" =
      ⟨"state.system.events, state.system.sms", 2⟩ := by
  have hfollow : ∀ pair ∈ stateGroups.pairs, ∀ rest ∈ ["tate.", "ate."],
      ¬ (pair.old ++ rest).toList <:+: "state.event_service, state.sms_service".toList := by
    decide +kernel
  have hperm : (Table.mk stateGroups.pairs.reverse).pairs.Perm stateGroups.pairs :=
    List.reverse_perm _
  rw [(stateGroups_apply_of_perm _ _ hperm hfollow).1]
  decide +kernel

end TokenMigration.Table
