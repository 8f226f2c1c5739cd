import TokenMigration.Json

namespace TokenMigration.Json

-- A new key only adds its field.
theorem insertField_perm {key : String} (value : Json) {fields : List (String × Json)}
    (h : key ∉ fields.map (·.1)) :
    (insertField key value fields).Perm ((key, value) :: fields) := by
  induction fields with
  | nil => exact .refl _
  | cons field fields ih =>
    simp only [List.map_cons, List.mem_cons, not_or] at h
    rw [insertField]
    split
    · exact .refl _
    · rw [if_neg h.1]
      exact ((ih h.2).cons field).trans (.swap _ _ _)

theorem mem_insertField {key : String} {value : Json} {fields : List (String × Json)}
    {field : String × Json} (h : field ∈ insertField key value fields) :
    field = (key, value) ∨ field ∈ fields := by
  induction fields with
  | nil => simpa [insertField] using h
  | cons other fields ih =>
    rw [insertField] at h
    split at h
    · simpa using h
    · split at h
      · exact (List.mem_cons.mp h).imp id (List.mem_cons_of_mem _)
      · obtain rfl | h := List.mem_cons.mp h
        · exact .inr List.mem_cons_self
        · exact (ih h).imp id (List.mem_cons_of_mem _)

-- The keys increase, so that none of them stands twice.
def Sorted (fields : List (String × Json)) : Prop := fields.Pairwise (·.1 < ·.1)

theorem Sorted.nodup {fields : List (String × Json)} (h : Sorted fields) :
    (fields.map (·.1)).Nodup := by
  rw [List.Nodup, List.pairwise_map]
  refine h.imp ?_
  intro field other hlt heq
  rw [heq] at hlt
  exact String.lt_irrefl _ hlt

theorem Sorted.insertField {fields : List (String × Json)} (h : Sorted fields) (key : String)
    (value : Json) : Sorted (insertField key value fields) := by
  induction fields with
  | nil => exact List.pairwise_singleton _ _
  | cons field fields ih =>
    obtain ⟨hfirst, hrest⟩ := List.pairwise_cons.mp h
    rw [Json.insertField]
    split
    next hbefore =>
      refine List.pairwise_cons.mpr ⟨fun other hother => ?_, h⟩
      obtain rfl | hother := List.mem_cons.mp hother
      · exact hbefore
      · exact String.lt_trans hbefore (hfirst other hother)
    next hbefore =>
      split
      next heq =>
        subst heq
        exact List.pairwise_cons.mpr ⟨hfirst, hrest⟩
      next hne =>
        have hafter : field.1 < key := by
          apply Decidable.of_not_not
          intro hbehind
          exact hne (String.le_antisymm (String.not_lt.mp hbehind) (String.not_lt.mp hbefore))
        refine List.pairwise_cons.mpr ⟨fun other hother => ?_, ih hrest⟩
        obtain rfl | hother := mem_insertField hother
        · exact hafter
        · exact hfirst other hother

theorem sorted_sortFields (fields : List (String × Json)) : Sorted (sortFields fields) := by
  have hfold (sorted : List (String × Json)) (h : Sorted sorted) :
      Sorted (fields.foldl (fun sorted field => insertField field.1 field.2 sorted) sorted) := by
    induction fields generalizing sorted with
    | nil => exact h
    | cons field fields ih => exact ih _ (h.insertField field.1 field.2)
  exact hfold [] .nil

-- Where no key stands twice, sorting only moves the fields.
theorem sortFields_perm {fields : List (String × Json)} (h : (fields.map (·.1)).Nodup) :
    (sortFields fields).Perm fields := by
  have hfold (fields sorted : List (String × Json)) (h : ((fields ++ sorted).map (·.1)).Nodup) :
      (fields.foldl (fun sorted field => insertField field.1 field.2 sorted) sorted).Perm
        (fields ++ sorted) := by
    induction fields generalizing sorted with
    | nil => exact .refl _
    | cons field fields ih =>
      have hnew : field.1 ∉ sorted.map (·.1) := by
        simp only [List.cons_append, List.map_cons, List.nodup_cons, List.map_append,
          List.mem_append, not_or] at h
        exact h.1.2
      have hinsert := (insertField_perm field.2 hnew).append_left fields
      have hmoved : (fields ++ insertField field.1 field.2 sorted).Perm
          (field :: fields ++ sorted) := hinsert.trans List.perm_middle
      exact (ih _ ((hmoved.map (·.1)).nodup_iff.mpr h)).trans hmoved
  have hall := hfold fields []
  rw [List.append_nil] at hall
  exact hall h

theorem sortKeysFields_eq_map (fields : List (String × Json)) :
    sortKeysFields fields = fields.map fun field => (field.1, field.2.sortKeys) := by
  induction fields with
  | nil => rfl
  | cons field fields ih => rw [sortKeysFields, ih, List.map_cons]

theorem sortKeysItems_eq_map (items : List Json) :
    sortKeysItems items = items.map sortKeys := by
  induction items with
  | nil => rfl
  | cons item items ih => rw [sortKeysItems, ih, List.map_cons]

theorem map_fst_sortKeysFields (fields : List (String × Json)) :
    (sortKeysFields fields).map (·.1) = fields.map (·.1) := by
  simp [sortKeysFields_eq_map]

theorem sortKeysFields_append (fields others : List (String × Json)) :
    sortKeysFields (fields ++ others) = sortKeysFields fields ++ sortKeysFields others := by
  simp [sortKeysFields_eq_map]

theorem lookup_sortKeysFields (fields : List (String × Json)) (key : String) :
    (sortKeysFields fields).lookup key = (fields.lookup key).map sortKeys := by
  induction fields with
  | nil => rfl
  | cons field fields ih =>
    rw [sortKeysFields, List.lookup_cons, List.lookup_cons, ih]
    cases key == field.1 <;> rfl

theorem lookup_eq_some_iff_mem {fields : List (String × Json)} (h : (fields.map (·.1)).Nodup)
    {key : String} {value : Json} : fields.lookup key = some value ↔ (key, value) ∈ fields := by
  induction fields with
  | nil => simp
  | cons field fields ih =>
    obtain ⟨hnew, hrest⟩ := List.nodup_cons.mp h
    rw [List.lookup_cons, List.mem_cons]
    by_cases hkey : key = field.1
    · subst hkey
      have hnot : (field.1, value) ∉ fields := fun hmem =>
        hnew (List.mem_map.mpr ⟨_, hmem, rfl⟩)
      simp [hnot, Prod.ext_iff, eq_comm]
    · rw [beq_false_of_ne hkey]
      simp [ih hrest, hkey, Prod.ext_iff]

theorem lookup_perm {fields others : List (String × Json)} (hperm : fields.Perm others)
    (h : (fields.map (·.1)).Nodup) (key : String) : fields.lookup key = others.lookup key := by
  have hothers : (others.map (·.1)).Nodup := (hperm.map (·.1)).nodup_iff.mp h
  ext value
  rw [lookup_eq_some_iff_mem h, lookup_eq_some_iff_mem hothers, hperm.mem_iff]

-- The value under a key, of an object that has it.
def field? (value : Json) (key : String) : Option Json :=
  match value with
  | .object fields => fields.lookup key
  | _ => none

-- The fields of an object with its keys put in order.
def sortedFields (fields : List (String × Json)) : List (String × Json) :=
  sortFields (sortKeysFields fields)

theorem sortKeys_object (fields : List (String × Json)) :
    (Json.object fields).sortKeys = .object (sortedFields fields) := rfl

theorem sorted_sortedFields (fields : List (String × Json)) : Sorted (sortedFields fields) :=
  sorted_sortFields (sortKeysFields fields)

theorem sortedFields_perm {fields : List (String × Json)} (h : (fields.map (·.1)).Nodup) :
    (sortedFields fields).Perm (sortKeysFields fields) := by
  apply sortFields_perm
  rwa [map_fst_sortKeysFields]

theorem field?_sortKeys {fields : List (String × Json)} (h : (fields.map (·.1)).Nodup)
    (key : String) :
    (Json.object fields).sortKeys.field? key = ((Json.object fields).field? key).map sortKeys := by
  have hperm := lookup_perm (sortedFields_perm h) (sorted_sortedFields fields).nodup key
  rw [sortKeys_object, field?, hperm, lookup_sortKeysFields, field?]

theorem field?_sortKeys_some {fields : List (String × Json)} (h : (fields.map (·.1)).Nodup)
    {key : String} {value : Json} (hfield : (Json.object fields).field? key = some value) :
    (Json.object fields).sortKeys.field? key = some value.sortKeys := by
  rw [field?_sortKeys h, hfield, Option.map_some]

theorem field?_sortKeys_map {α : Type} {fields : List (String × Json)}
    (h : (fields.map (·.1)).Nodup) {key : String} {value : Option α} {form : α → Json}
    (hfield : (Json.object fields).field? key = value.map form) :
    (Json.object fields).sortKeys.field? key = value.map fun a => (form a).sortKeys := by
  rw [field?_sortKeys h, hfield, Option.map_map]
  rfl

theorem lookup_optionalField (key : String) (value : Option Json) (other : String) :
    (optionalField key value).lookup other = if other = key then value else none := by
  cases value with
  | none => simp [optionalField]
  | some value =>
    rw [optionalField, Option.toList_some, List.map_singleton, List.lookup_cons, List.lookup_nil]
    by_cases hkey : other = key
    · simp [hkey]
    · rw [beq_false_of_ne hkey, if_neg hkey]

theorem map_fst_optionalField_sublist (key : String) (value : Option Json) :
    ((optionalField key value).map (·.1)).Sublist [key] := by
  cases value with
  | none => exact List.nil_sublist _
  | some value => exact .refl _

end TokenMigration.Json
