namespace TokenMigration

-- A number that is written with a fraction, an exponent or both, digit by digit.
structure Json.Decimal where
  negative : Bool
  whole : Nat
  fraction : List (Fin 10)
  exponent : Option Int
  marked : fraction ≠ [] ∨ exponent ≠ none
  deriving DecidableEq, Repr

-- The fields of an object keep the order in which they are given.
inductive Json where
  | null
  | bool (value : Bool)
  | number (value : Int)
  | decimal (value : Json.Decimal)
  | text (value : String)
  | array (items : List Json)
  | object (fields : List (String × Json))
  deriving Repr, Inhabited

namespace Json

mutual

def same : Json → Json → Bool
  | .null, .null => true
  | .bool a, .bool b => a = b
  | .number a, .number b => a = b
  | .decimal a, .decimal b => a = b
  | .text a, .text b => a = b
  | .array items, .array others => sameItems items others
  | .object fields, .object others => sameFields fields others
  | _, _ => false

def sameItems : List Json → List Json → Bool
  | [], [] => true
  | item :: items, other :: others => item.same other && sameItems items others
  | _, _ => false

def sameFields : List (String × Json) → List (String × Json) → Bool
  | [], [] => true
  | (key, value) :: fields, (key', value') :: others =>
    key = key' && value.same value' && sameFields fields others
  | _, _ => false

end

mutual

theorem same_iff (value other : Json) : value.same other = true ↔ value = other := by
  cases value <;> cases other <;> simp [same, sameItems_iff, sameFields_iff]

theorem sameItems_iff (items others : List Json) :
    sameItems items others = true ↔ items = others := by
  cases items with
  | nil => cases others <;> simp [sameItems]
  | cons item items =>
    cases others with
    | nil => simp [sameItems]
    | cons other others => simp [sameItems, same_iff item other, sameItems_iff items others]

theorem sameFields_iff (fields others : List (String × Json)) :
    sameFields fields others = true ↔ fields = others := by
  cases fields with
  | nil => cases others <;> simp [sameFields]
  | cons field fields =>
    cases others with
    | nil => simp [sameFields]
    | cons other others =>
      simp [sameFields, same_iff field.2 other.2, sameFields_iff fields others, Prod.ext_iff]

end

instance : DecidableEq Json := fun value other => decidable_of_iff _ (same_iff value other)

-- Keeps the keys in increasing order. A field takes the place of an earlier one with its key.
def insertField (key : String) (value : Json) : List (String × Json) → List (String × Json)
  | [] => [(key, value)]
  | (other, present) :: fields =>
    if key < other then (key, value) :: (other, present) :: fields
    else if key = other then (key, value) :: fields
    else (other, present) :: insertField key value fields

def sortFields (fields : List (String × Json)) : List (String × Json) :=
  fields.foldl (fun sorted field => insertField field.1 field.2 sorted) []

mutual

-- The order of characters is also the order of the bytes that encode them.
def sortKeys : Json → Json
  | .array items => .array (sortKeysItems items)
  | .object fields => .object (sortFields (sortKeysFields fields))
  | value => value

def sortKeysItems : List Json → List Json
  | [] => []
  | item :: items => item.sortKeys :: sortKeysItems items

def sortKeysFields : List (String × Json) → List (String × Json)
  | [] => []
  | (key, value) :: fields => (key, value.sortKeys) :: sortKeysFields fields

end

def optionalField (key : String) (value : Option Json) : List (String × Json) :=
  value.toList.map (key, ·)

end Json

end TokenMigration
