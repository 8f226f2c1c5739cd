namespace TokenMigration.Json

-- Why a value has no form as JSON, and the place in a text that this is about. Lines are counted
-- from one, so line zero is no place.
structure Fault where
  message : String
  line : UInt64 := 0
  column : UInt64 := 0
  deriving DecidableEq, Repr

namespace Fault

def text (fault : Fault) : String :=
  if fault.line = 0 then fault.message
  else s!"{fault.message} at line {fault.line} column {fault.column}"

-- The number at the end of a text behind the mark, and what stands before the mark. The text is
-- given from its end.
def numberBehind? (mark : String) (reversed : List Char) : Option (UInt64 × List Char) :=
  let digits := (reversed.takeWhile Char.isDigit).reverse
  let rest := reversed.dropWhile Char.isDigit
  let value := Nat.ofDigitChars 10 digits 0
  if !digits.isEmpty && value < UInt64.size && mark.toList.reverse.isPrefixOf rest then
    some (value.toUInt64, rest.drop mark.length)
  else none

def located? (text : String) : Option Fault := do
  let (column, rest) ← numberBehind? " column " text.toList.reverse
  let (line, rest) ← numberBehind? " at line " rest
  return { message := String.ofList rest.reverse, line, column }

def ofText (text : String) : Fault := (located? text).getD { message := text }

end Fault

end TokenMigration.Json
