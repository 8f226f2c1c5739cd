import TokenMigration.Json

namespace TokenMigration.Json

inductive Style where
  | compact
  | indented
  deriving DecidableEq, Repr

-- Where the indented style starts a new line, two blanks deeper on each level.
def lineBreak : Style → Nat → List Char
  | .compact, _ => []
  | .indented, depth => '\n' :: List.replicate (2 * depth) ' '

def colon : Style → List Char
  | .compact => [':']
  | .indented => [':', ' ']

-- Control characters have a short escape or else two hexadecimal digits. All characters that need
-- no escape are written as they are.
def escape (c : Char) : List Char :=
  if c = '"' then ['\\', '"']
  else if c = '\\' then ['\\', '\\']
  else if c = '\x08' then ['\\', 'b']
  else if c = '\x0c' then ['\\', 'f']
  else if c = '\n' then ['\\', 'n']
  else if c = '\r' then ['\\', 'r']
  else if c = '\t' then ['\\', 't']
  else if c.toNat < 0x20 then
    ['\\', 'u', '0', '0', Nat.digitChar (c.toNat / 16), Nat.digitChar (c.toNat % 16)]
  else [c]

def quoted (text : String) : List Char := '"' :: text.toList.flatMap escape ++ ['"']

def printFraction : List (Fin 10) → List Char
  | [] => []
  | digits => '.' :: digits.map (Nat.digitChar ·.val)

def printExponent : Option Int → List Char
  | none => []
  | some exponent => 'e' :: (toString exponent).toList

def Decimal.print (value : Decimal) : List Char :=
  (if value.negative then ['-'] else []) ++ Nat.toDigits 10 value.whole ++
    printFraction value.fraction ++ printExponent value.exponent

mutual

def print (style : Style) (depth : Nat) : Json → List Char
  | .null => ['n', 'u', 'l', 'l']
  | .bool true => ['t', 'r', 'u', 'e']
  | .bool false => ['f', 'a', 'l', 's', 'e']
  | .number value => (toString value).toList
  | .decimal value => value.print
  | .text value => quoted value
  | .array [] => ['[', ']']
  | .array (item :: items) =>
    '[' :: lineBreak style (depth + 1) ++ item.print style (depth + 1) ++
      printItems style (depth + 1) items ++ lineBreak style depth ++ [']']
  | .object [] => ['{', '}']
  | .object ((key, value) :: fields) =>
    '{' :: lineBreak style (depth + 1) ++ quoted key ++ colon style ++
      value.print style (depth + 1) ++
      printFields style (depth + 1) fields ++ lineBreak style depth ++ ['}']

def printItems (style : Style) (depth : Nat) : List Json → List Char
  | [] => []
  | item :: items =>
    ',' :: lineBreak style depth ++ item.print style depth ++ printItems style depth items

def printFields (style : Style) (depth : Nat) : List (String × Json) → List Char
  | [] => []
  | (key, value) :: fields =>
    ',' :: lineBreak style depth ++ quoted key ++ colon style ++ value.print style depth ++
      printFields style depth fields

end

def compact (value : Json) : String := String.ofList (value.print .compact 0)

def pretty (value : Json) : String := String.ofList (value.print .indented 0)

end TokenMigration.Json
