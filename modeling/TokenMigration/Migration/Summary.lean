import TokenMigration.Failure

namespace TokenMigration

inductive Status where
  | updated (replacements : UInt64)
  | wouldUpdate (replacements : UInt64)
  | unchanged
  | notFound
  | failed (message : String) (code : ErrorCode)
  deriving DecidableEq, Repr

-- What has come out for one target. The path is kept as it is shown.
structure Item where
  path : String
  status : Status
  deriving DecidableEq, Repr

-- The result of trying one target. Whether a change has been written is for the summary to know.
inductive Outcome where
  | changed (replacements : UInt64)
  | unchanged
  | notFound
  | failed (failure : Failure)
  deriving DecidableEq, Repr

-- The items stand in the order of the targets, and the numbers count them by status.
structure Summary where
  dryRun : Bool
  updated : UInt32 := 0
  wouldUpdate : UInt32 := 0
  unchanged : UInt32 := 0
  notFound : UInt32 := 0
  errors : UInt32 := 0
  replacements : UInt64 := 0
  items : List Item := []
  deriving DecidableEq, Repr

namespace Status

def name : Status → String
  | .updated _ => "updated"
  | .wouldUpdate _ => "would_update"
  | .unchanged => "unchanged"
  | .notFound => "not_found"
  | .failed .. => "error"

def replacements : Status → UInt64
  | .updated n => n
  | .wouldUpdate n => n
  | _ => 0

def message? : Status → Option String
  | .failed message _ => some message
  | _ => none

def code? : Status → Option ErrorCode
  | .failed _ code => some code
  | _ => none

end Status

-- A count of zero is left out, and so is an error where there is none.
def Item.toJson (item : Item) : Json :=
  let n := item.status.replacements
  .object <|
    [("path", .text item.path), ("status", .text item.status.name)] ++
    Json.optionalField "replacements" (if n = 0 then none else some (.number n.toNat)) ++
    Json.optionalField "error" (item.status.message?.map .text) ++
    Json.optionalField "errorCode" (item.status.code?.map (.text ·.name))

namespace Summary

def start (dryRun : Bool) : Summary := { dryRun }

def add (summary : Summary) (path : Path) (status : Status) : Summary :=
  { summary with items := summary.items ++ [⟨path.display, status⟩] }

def record (summary : Summary) (path : Path) : Outcome → Summary
  | .changed n =>
    let summary := { summary with replacements := summary.replacements + n }
    if summary.dryRun then
      { summary with wouldUpdate := summary.wouldUpdate + 1 }.add path (.wouldUpdate n)
    else
      { summary with updated := summary.updated + 1 }.add path (.updated n)
  | .unchanged => { summary with unchanged := summary.unchanged + 1 }.add path .unchanged
  | .notFound => { summary with notFound := summary.notFound + 1 }.add path .notFound
  | .failed failure =>
    { summary with errors := summary.errors + 1 }.add path (.failed failure.message failure.code)

def total (summary : Summary) : Nat := summary.items.length

def fields (summary : Summary) : List (String × Json) :=
  [("dryRun", .bool summary.dryRun),
    ("updated", .number summary.updated.toNat),
    ("wouldUpdate", .number summary.wouldUpdate.toNat),
    ("unchanged", .number summary.unchanged.toNat),
    ("notFound", .number summary.notFound.toNat),
    ("errors", .number summary.errors.toNat),
    ("replacements", .number summary.replacements.toNat),
    ("items", .array (summary.items.map Item.toJson))]

def toJson (summary : Summary) : Json := .object summary.fields

end Summary

end TokenMigration
