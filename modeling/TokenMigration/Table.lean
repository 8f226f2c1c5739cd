import TokenMigration.Json
import TokenMigration.Text.Substitution

namespace TokenMigration

structure Pair where
  old : String
  new : String
  deriving DecidableEq, Repr

-- Pairs are applied in their order. An old token may occur in the new token of an earlier pair.
structure Table where
  pairs : List Pair
  deriving DecidableEq, Repr

structure Rewrite where
  content : String
  replacements : Nat
  deriving DecidableEq, Repr

namespace Table

def ofList (pairs : List (String × String)) : Table :=
  ⟨pairs.map fun (old, new) => ⟨old, new⟩⟩

def size (table : Table) : Nat := table.pairs.length

def isEmpty (table : Table) : Bool := table.pairs.isEmpty

def olds (table : Table) : List String := table.pairs.map Pair.old

def apply (table : Table) (text : String) : Rewrite :=
  let pairs := table.pairs.map fun pair => (pair.old.toList, pair.new.toList)
  let (content, replacements) := Substitution.replaceInOrder pairs text.toList
  ⟨String.ofList content, replacements⟩

def toJson (table : Table) : Json :=
  .object [("pairs", .array (table.pairs.map fun pair =>
    .object [("from", .text pair.old), ("to", .text pair.new)]))]

end Table

end TokenMigration
