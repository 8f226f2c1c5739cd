import TokenMigration.Proofs.Substitution.Remaining
import TokenMigration.Proofs.Table.Order

namespace TokenMigration.Table

open Substitution

-- A new token ends one character behind the place, in "s", or two characters behind it, in "st".
def EndsBehind (table : Table) (text : String) (place : Nat) : Prop :=
  ∃ pair ∈ table.pairs,
    ("s".toList <:+ pair.new.toList ∧ pair.new.toList <:+ text.toList.take (place + 1)) ∨
      ("st".toList <:+ pair.new.toList ∧ pair.new.toList <:+ text.toList.take (place + 2))

theorem stateGroups_endsBehind {q : List Char × List Char} {text : String} {place : Nat}
    (hq : q ∈ stateGroups.words) (hstands : q.1 <+: text.toList.drop place)
    (hends : EndsInto stateGroups.words (text.toList.take place) q.1) :
    stateGroups.EndsBehind text place := by
  obtain ⟨p, hp, b, hb, hbs, hbq, hnew⟩ := hends
  obtain ⟨pair, hpair, rfl⟩ := List.mem_map.mp hp
  have htake : text.toList.take place ++ b = text.toList.take (place + b.length) := by
    rw [List.take_add, List.prefix_iff_eq_take.mp (hbq.trans hstands)]
    simp
  rw [htake] at hnew
  rcases stateGroups_ends hp hq hb hbs hbq with rfl | rfl
  · exact ⟨pair, hpair, .inl ⟨hbs, hnew⟩⟩
  · exact ⟨pair, hpair, .inr ⟨hbs, hnew⟩⟩

-- A pass replaces at least the old tokens that the text holds. An old token that stands in the
-- result has been spelled by the end of a new token and the text after it.
theorem stateGroups_apply_finds_all (text : String) :
    stateGroups.places text ≤ (stateGroups.apply text).replacements ∧
      stateGroups.OldsApart text ∧
      ∀ pair ∈ stateGroups.pairs, ∀ place,
        pair.old.toList <+: (stateGroups.apply text).content.toList.drop place →
        stateGroups.EndsBehind (stateGroups.apply text).content place := by
  have hs := stateGroups_separated
  refine ⟨hs.sum_places_le_replaceInOrder text.toList, oldsApart hs text, ?_⟩
  intro pair hpair place hstands
  have hq : (pair.old.toList, pair.new.toList) ∈ stateGroups.words := List.mem_map_of_mem hpair
  have haccounted := hs.accounted_replaceInOrder (List.Subset.refl _) hq text.toList
  rw [← content_apply] at haccounted
  obtain ⟨after, hafter⟩ := hstands
  refine stateGroups_endsBehind hq ⟨after, hafter⟩ (haccounted _ after ?_)
  rw [hafter, List.take_append_drop]

-- Two junctions, the second of them with a new token that ends in "st". Each completes the token of
-- a pair that has been applied.
theorem stateGroups_apply_finds_all_junctions :
    let text := "state.event_servicetate.tax_service state.buylist_serviceate.product_service"
    stateGroups.apply text =
        ⟨"state.system.eventstate.tax_service state.commerce.buylistate.product_service", 2⟩ ∧
      stateGroups.places text = 2 ∧
      stateGroups.EndsBehind (stateGroups.apply text).content 18 ∧
      stateGroups.EndsBehind (stateGroups.apply text).content 56 := by
  intro text
  have happly : stateGroups.apply text =
      ⟨"state.system.eventstate.tax_service state.commerce.buylistate.product_service", 2⟩ := by
    decide +kernel
  have hplaces : stateGroups.places text = 2 := by decide +kernel
  have hends := (stateGroups_apply_finds_all text).2.2
  have hfirst := hends ⟨"state.tax_service", "state.commerce.taxes"⟩ (by decide +kernel) 18
  have hsecond := hends ⟨"state.product_service", "state.commerce.product"⟩ (by decide +kernel) 56
  rw [happly] at hfirst hsecond ⊢
  exact ⟨rfl, hplaces, hfirst (by decide +kernel), hsecond (by decide +kernel)⟩

end TokenMigration.Table
