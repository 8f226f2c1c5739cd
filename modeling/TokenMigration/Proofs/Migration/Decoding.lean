import TokenMigration.Migration.Summary
import TokenMigration.Proofs.Json.Printed
import TokenMigration.Proofs.Json.SortKeys

namespace TokenMigration

namespace Json

def asText? : Json → Option String
  | .text value => some value
  | _ => none

def asBool? : Json → Option Bool
  | .bool value => some value
  | _ => none

def asArray? : Json → Option (List Json)
  | .array items => some items
  | _ => none

-- A whole number from zero up to the bound, without the bound itself.
def asBelow? (bound : Nat) : Json → Option Nat
  | .number value => if 0 ≤ value ∧ value < bound then some value.toNat else none
  | _ => none

theorem asBelow?_natCast {bound n : Nat} (h : n < bound) :
    (Json.number n).asBelow? bound = some n := by
  simp [asBelow?, h]

def asUInt32? (value : Json) : Option UInt32 := (value.asBelow? UInt32.size).map UInt32.ofNat

def asUInt64? (value : Json) : Option UInt64 := (value.asBelow? UInt64.size).map UInt64.ofNat

theorem asUInt32?_number (n : UInt32) : (Json.number n.toNat).asUInt32? = some n := by
  rw [asUInt32?, asBelow?_natCast n.toNat_lt, Option.map_some, UInt32.ofNat_toNat]

theorem asUInt64?_number (n : UInt64) : (Json.number n.toNat).asUInt64? = some n := by
  rw [asUInt64?, asBelow?_natCast n.toNat_lt, Option.map_some, UInt64.ofNat_toNat]

section

variable {α : Type}

def required? (value : Json) (key : String) (read : Json → Option α) : Option α :=
  (value.field? key).bind read

-- A field may be missing, but one that is there must be readable.
def optional? (value : Json) (key : String) (read : Json → Option α) : Option (Option α) :=
  match value.field? key with
  | none => some none
  | some found => (read found).map some

theorem required?_of_field? {value found : Json} {key : String} {read : Json → Option α}
    {result : α} (hfield : value.field? key = some found) (hread : read found = some result) :
    value.required? key read = some result := by
  rw [required?, hfield, Option.bind_some, hread]

theorem optional?_of_field? {value : Json} {key : String} {read : Json → Option α}
    {form : α → Json} {result : Option α} (hfield : value.field? key = result.map form)
    (hread : ∀ a, read (form a) = some a) : value.optional? key read = some result := by
  rw [optional?, hfield]
  cases result with
  | none => rfl
  | some a => simp [hread]

end

end Json

def ErrorCode.ofName? (name : String) : Option ErrorCode :=
  [.invalidArgument, .fileOperationFailed, .ioError, .jsonError].find? (·.name = name)

theorem ErrorCode.ofName?_name (code : ErrorCode) : ofName? code.name = some code := by
  cases code <;> rfl

def Json.asErrorCode? (value : Json) : Option ErrorCode := value.asText?.bind ErrorCode.ofName?

-- A status is the one of its name that has the parts.
def Status.ofParts? (name : String) (replacements : UInt64) (message : Option String)
    (code : Option ErrorCode) : Option Status :=
  let failed := do return Status.failed (← message) (← code)
  ([.updated replacements, .wouldUpdate replacements, .unchanged, .notFound] ++ failed.toList).find?
    fun status => status.name = name ∧ status.replacements = replacements ∧
      status.message? = message ∧ status.code? = code

theorem Status.ofParts?_parts (status : Status) :
    ofParts? status.name status.replacements status.message? status.code? = some status := by
  cases status <;> simp [ofParts?, name, Status.replacements, message?, code?]

-- A missing number of replacements is zero, and a missing error is none.
def Item.ofJson? (value : Json) : Option Item := do
  let path ← value.required? "path" Json.asText?
  let name ← value.required? "status" Json.asText?
  let replacements ← value.optional? "replacements" Json.asUInt64?
  let message ← value.optional? "error" Json.asText?
  let code ← value.optional? "errorCode" Json.asErrorCode?
  let status ← Status.ofParts? name (replacements.getD 0) message code
  return ⟨path, status⟩

def Summary.readItems? (value : Json) : Option (List Item) := do
  (← value.asArray?).mapM Item.ofJson?

def Summary.ofJson? (value : Json) : Option Summary := do
  return {
    dryRun := ← value.required? "dryRun" Json.asBool?
    updated := ← value.required? "updated" Json.asUInt32?
    wouldUpdate := ← value.required? "wouldUpdate" Json.asUInt32?
    unchanged := ← value.required? "unchanged" Json.asUInt32?
    notFound := ← value.required? "notFound" Json.asUInt32?
    errors := ← value.required? "errors" Json.asUInt32?
    replacements := ← value.required? "replacements" Json.asUInt64?
    items := ← value.required? "items" readItems? }

def Summary.ofText? (text : String) : Option Summary := (Json.read? text).bind Summary.ofJson?

namespace Item

-- The number that an item is written with.
def replacements? (item : Item) : Option UInt64 :=
  if item.status.replacements = 0 then none else some item.status.replacements

theorem getD_replacements? (item : Item) :
    item.replacements?.getD 0 = item.status.replacements := by
  rw [replacements?]
  split
  next hzero => rw [hzero]; rfl
  next => rfl

-- The fields of an item under their keys, wherever they stand in the object.
structure FieldsIn (item : Item) (value : Json) : Prop where
  path : value.field? "path" = some (.text item.path)
  status : value.field? "status" = some (.text item.status.name)
  replacements : value.field? "replacements" = item.replacements?.map (.number ·.toNat)
  error : value.field? "error" = item.status.message?.map .text
  code : value.field? "errorCode" = item.status.code?.map (.text ·.name)

theorem FieldsIn.ofJson? {item : Item} {value : Json} (h : item.FieldsIn value) :
    ofJson? value = some item := by
  have hpath : value.required? "path" Json.asText? = some item.path :=
    Json.required?_of_field? h.path rfl
  have hstatus : value.required? "status" Json.asText? = some item.status.name :=
    Json.required?_of_field? h.status rfl
  have hreplacements : value.optional? "replacements" Json.asUInt64? = some item.replacements? :=
    Json.optional?_of_field? h.replacements Json.asUInt64?_number
  have herror : value.optional? "error" Json.asText? = some item.status.message? :=
    Json.optional?_of_field? h.error fun _ => rfl
  have hcode : value.optional? "errorCode" Json.asErrorCode? = some item.status.code? :=
    Json.optional?_of_field? h.code ErrorCode.ofName?_name
  simp only [Item.ofJson?, hpath, hstatus, hreplacements, herror, hcode, bind, Option.bind_some,
    getD_replacements?, Status.ofParts?_parts]
  rfl

theorem toJson_eq (item : Item) : item.toJson = .object (
    [("path", .text item.path), ("status", .text item.status.name)] ++
    Json.optionalField "replacements" (item.replacements?.map (.number ·.toNat)) ++
    Json.optionalField "error" (item.status.message?.map .text) ++
    Json.optionalField "errorCode" (item.status.code?.map (.text ·.name))) := by
  rw [toJson, replacements?]
  split <;> rfl

-- An item has every key at most once.
theorem exists_toJson (item : Item) :
    ∃ fields, item.toJson = .object fields ∧ (fields.map (·.1)).Nodup := by
  refine ⟨_, item.toJson_eq, ?_⟩
  have hkeys : ["path", "status", "replacements", "error", "errorCode"].Nodup := by decide
  refine hkeys.sublist ?_
  simp only [List.map_append]
  exact (((List.Sublist.refl ["path", "status"]).append
    (Json.map_fst_optionalField_sublist _ _)).append
    (Json.map_fst_optionalField_sublist _ _)).append (Json.map_fst_optionalField_sublist _ _)

theorem fieldsIn_toJson (item : Item) : item.FieldsIn item.toJson := by
  rw [toJson_eq]
  constructor <;>
    simp [Json.field?, List.lookup_append, Json.lookup_optionalField, List.lookup_cons]

theorem FieldsIn.sortKeys {item : Item} {fields : List (String × Json)}
    (h : item.FieldsIn (.object fields)) (hkeys : (fields.map (·.1)).Nodup) :
    item.FieldsIn (Json.object fields).sortKeys where
  path := Json.field?_sortKeys_some hkeys h.path
  status := Json.field?_sortKeys_some hkeys h.status
  replacements := Json.field?_sortKeys_map hkeys h.replacements
  error := Json.field?_sortKeys_map hkeys h.error
  code := Json.field?_sortKeys_map hkeys h.code

theorem ofJson?_toJson (item : Item) : ofJson? item.toJson = some item :=
  item.fieldsIn_toJson.ofJson?

theorem ofJson?_sortKeys (item : Item) : ofJson? item.toJson.sortKeys = some item := by
  obtain ⟨fields, htoJson, hkeys⟩ := item.exists_toJson
  have hfields := item.fieldsIn_toJson
  rw [htoJson] at hfields ⊢
  exact (hfields.sortKeys hkeys).ofJson?

theorem mapM_ofJson? {form : Item → Json} (hform : ∀ item, ofJson? (form item) = some item)
    (items : List Item) : (items.map form).mapM ofJson? = some items := by
  induction items with
  | nil => rfl
  | cons item items ih => simp [List.mapM_cons, hform, ih]

end Item

namespace Summary

-- The fields of a summary under their keys, with the items in the given form.
structure FieldsIn (summary : Summary) (form : Item → Json) (value : Json) : Prop where
  dryRun : value.field? "dryRun" = some (.bool summary.dryRun)
  updated : value.field? "updated" = some (.number summary.updated.toNat)
  wouldUpdate : value.field? "wouldUpdate" = some (.number summary.wouldUpdate.toNat)
  unchanged : value.field? "unchanged" = some (.number summary.unchanged.toNat)
  notFound : value.field? "notFound" = some (.number summary.notFound.toNat)
  errors : value.field? "errors" = some (.number summary.errors.toNat)
  replacements : value.field? "replacements" = some (.number summary.replacements.toNat)
  items : value.field? "items" = some (.array (summary.items.map form))

theorem FieldsIn.ofJson? {summary : Summary} {form : Item → Json} {value : Json}
    (h : summary.FieldsIn form value) (hform : ∀ item, Item.ofJson? (form item) = some item) :
    ofJson? value = some summary := by
  have hcount {key : String} {n : UInt32} (hfield : value.field? key = some (.number n.toNat)) :
      value.required? key Json.asUInt32? = some n :=
    Json.required?_of_field? hfield (Json.asUInt32?_number n)
  have hdryRun : value.required? "dryRun" Json.asBool? = some summary.dryRun :=
    Json.required?_of_field? h.dryRun rfl
  have hreplacements : value.required? "replacements" Json.asUInt64? = some summary.replacements :=
    Json.required?_of_field? h.replacements (Json.asUInt64?_number _)
  have hitems : value.required? "items" readItems? = some summary.items :=
    Json.required?_of_field? h.items (Item.mapM_ofJson? hform summary.items)
  simp only [Summary.ofJson?, hdryRun, hcount h.updated, hcount h.wouldUpdate, hcount h.unchanged,
    hcount h.notFound, hcount h.errors, hreplacements, hitems, bind, Option.bind_some]
  rfl

theorem FieldsIn.sortKeys {summary : Summary} {form : Item → Json}
    {fields : List (String × Json)} (h : summary.FieldsIn form (.object fields))
    (hkeys : (fields.map (·.1)).Nodup) :
    summary.FieldsIn (fun item => (form item).sortKeys) (Json.object fields).sortKeys where
  dryRun := Json.field?_sortKeys_some hkeys h.dryRun
  updated := Json.field?_sortKeys_some hkeys h.updated
  wouldUpdate := Json.field?_sortKeys_some hkeys h.wouldUpdate
  unchanged := Json.field?_sortKeys_some hkeys h.unchanged
  notFound := Json.field?_sortKeys_some hkeys h.notFound
  errors := Json.field?_sortKeys_some hkeys h.errors
  replacements := Json.field?_sortKeys_some hkeys h.replacements
  items := by
    rw [Json.field?_sortKeys_some hkeys h.items, Json.sortKeys, Json.sortKeysItems_eq_map,
      List.map_map]
    rfl

theorem fieldsIn_toJson (summary : Summary) : summary.FieldsIn Item.toJson summary.toJson := by
  constructor <;> rfl

-- The text of a summary tells all of it.
theorem ofText?_compact (summary : Summary) : ofText? summary.toJson.compact = some summary := by
  rw [ofText?, Json.read?_compact, Option.bind_some]
  exact summary.fieldsIn_toJson.ofJson? Item.ofJson?_toJson

end Summary

end TokenMigration
