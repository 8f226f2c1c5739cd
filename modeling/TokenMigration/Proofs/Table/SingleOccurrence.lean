import TokenMigration.Proofs.Substitution.SingleOccurrence
import TokenMigration.Proofs.Table.StateGroups

namespace TokenMigration

-- The new token of `pair` ends as the old token of `other` begins, and the text that follows goes
-- on with the rest of that token.
def Pair.Joins (pair other : Pair) (after : String) : Prop :=
  Substitution.Joins (pair.old.toList, pair.new.toList) (other.old.toList, other.new.toList)
    after.toList

namespace Table

open Substitution

theorem apply_single_iff {table : Table} (hs : Separated table.words)
    {earlier later : List Pair} {pair : Pair} {before after : String}
    (hsplit : table.pairs = earlier ++ pair :: later)
    (hone : table.places (before ++ pair.old ++ after) = 1) :
    table.apply (before ++ pair.old ++ after) = ⟨before ++ pair.new ++ after, 1⟩ ↔
      ∀ other ∈ later, ¬ pair.Joins other after := by
  have hwords : table.words =
      (Table.mk earlier).words ++ (pair.old.toList, pair.new.toList) :: (Table.mk later).words := by
    simp [words, hsplit]
  have htext : ∀ middle : String, (before ++ middle ++ after).toList =
      before.toList ++ (middle.toList ++ after.toList) := by simp
  rw [places, htext, hwords] at hone
  rw [hwords] at hs
  rw [apply_eq_iff, htext, htext, hwords, hs.replaceInOrder_single_iff hone, forall_words]
  rfl

-- A text in which one old token stands, and this at one place. It is replaced there and nothing
-- else happens, unless the new token and the text after it spell an old token of a later pair.
theorem stateGroups_apply_single_iff {earlier later : List Pair} {pair : Pair}
    {before after : String} (hsplit : stateGroups.pairs = earlier ++ pair :: later)
    (hone : stateGroups.places (before ++ pair.old ++ after) = 1) :
    stateGroups.apply (before ++ pair.old ++ after) = ⟨before ++ pair.new ++ after, 1⟩ ↔
      ∀ other ∈ later, ¬ pair.Joins other after :=
  apply_single_iff stateGroups_separated hsplit hone

-- What follows the token begins like the rest of a token, but is not one.
theorem stateGroups_apply_event_service :
    stateGroups.apply ("let e = " ++ "state.event_service" ++ "tate_of()") =
      ⟨"let e = " ++ "state.system.events" ++ "tate_of()", 1⟩ := by
  have hsplit : stateGroups.pairs = stateGroups.pairs.take 11 ++
      ⟨"state.event_service", "state.system.events"⟩ :: stateGroups.pairs.drop 12 := rfl
  have hone : stateGroups.places ("let e = " ++ "state.event_service" ++ "tate_of()") = 1 := by
    decide +kernel
  refine (stateGroups_apply_single_iff hsplit hone).mpr fun other hother hj => ?_
  have hp : Pair.mk "state.event_service" "state.system.events" ∈ stateGroups.pairs := by
    rw [hsplit]
    simp
  have hq : other ∈ stateGroups.pairs := List.mem_of_mem_drop hother
  have hrest := stateGroups_joins (List.mem_map_of_mem hp) (List.mem_map_of_mem hq) hj
  simp at hrest

-- The new token "state.system.events" ends with the letter that the rest of the text lacks.
theorem stateGroups_apply_event_servicetate :
    stateGroups.places ("" ++ "state.event_service" ++ "tate.sms_service") = 1 ∧
      Pair.mk "state.event_service" "state.system.events" ∈ stateGroups.pairs ∧
      stateGroups.apply ("" ++ "state.event_service" ++ "tate.sms_service") =
        ⟨"state.system.eventstate.system.sms", 2⟩ := by
  decide +kernel

end Table

end TokenMigration
