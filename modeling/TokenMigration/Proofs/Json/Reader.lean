import TokenMigration.Json

namespace TokenMigration.Json

-- The words that a JSON text is made of. A number and each of the three names is one word.
inductive Token where
  | openArray
  | closeArray
  | openObject
  | closeObject
  | comma
  | colon
  | text (value : String)
  | plain (value : Json)
  deriving DecidableEq, Repr

def isBlank (c : Char) : Bool := c = ' ' || c = '\t' || c = '\n' || c = '\r'

def hexValue? (c : Char) : Option Nat :=
  if '0' ≤ c ∧ c ≤ '9' then some (c.toNat - '0'.toNat)
  else if 'a' ≤ c ∧ c ≤ 'f' then some (c.toNat - 'a'.toNat + 10)
  else if 'A' ≤ c ∧ c ≤ 'F' then some (c.toNat - 'A'.toNat + 10)
  else none

-- Four hexadecimal digits give one unit of UTF-16.
def unit? (a b c d : Char) : Option Nat := do
  return 4096 * (← hexValue? a) + 256 * (← hexValue? b) + 16 * (← hexValue? c) + (← hexValue? d)

def isHighSurrogate (unit : Nat) : Bool := 0xD800 ≤ unit && unit < 0xDC00

def isLowSurrogate (unit : Nat) : Bool := 0xDC00 ≤ unit && unit < 0xE000

def ofSurrogates (high low : Nat) : Char :=
  Char.ofNat (0x10000 + 0x400 * (high - 0xD800) + (low - 0xDC00))

def unescape? : Char → Option Char
  | '"' => some '"'
  | '\\' => some '\\'
  | '/' => some '/'
  | 'b' => some '\x08'
  | 'f' => some '\x0c'
  | 'n' => some '\n'
  | 'r' => some '\r'
  | 't' => some '\t'
  | _ => none

def putInFront (c : Char) (read : List Char × List Char) : List Char × List Char :=
  (c :: read.1, read.2)

-- The characters up to the closing quote, and what stands behind it. A control character must be
-- escaped, and a character beyond the first plane is escaped as two surrogates.
def readText : List Char → Option (List Char × List Char)
  | [] => none
  | '"' :: rest => some ([], rest)
  | '\\' :: 'u' :: a :: b :: c :: d :: rest => do
    let unit ← unit? a b c d
    if isHighSurrogate unit then
      match rest with
      | '\\' :: 'u' :: a' :: b' :: c' :: d' :: rest => do
        let low ← unit? a' b' c' d'
        if isLowSurrogate low then (readText rest).map (putInFront (ofSurrogates unit low))
        else none
      | _ => none
    else if isLowSurrogate unit then none
    else (readText rest).map (putInFront (Char.ofNat unit))
  | '\\' :: c :: rest => do
    let c ← unescape? c
    (readText rest).map (putInFront c)
  | c :: rest => if c.toNat < 0x20 then none else (readText rest).map (putInFront c)

-- A zero in front stands alone.
def readWhole (input : List Char) : Option (Nat × List Char) :=
  let digits := input.takeWhile Char.isDigit
  if digits.isEmpty || (digits.head? == some '0' && 1 < digits.length) then none
  else some (Nat.ofDigitChars 10 digits 0, input.dropWhile Char.isDigit)

def digit (c : Char) : Fin 10 := Fin.ofNat 10 (c.toNat - '0'.toNat)

def readFraction : List Char → Option (List (Fin 10) × List Char)
  | '.' :: rest =>
    let digits := rest.takeWhile Char.isDigit
    if digits.isEmpty then none else some (digits.map digit, rest.dropWhile Char.isDigit)
  | rest => some ([], rest)

def readExponentDigits (sign : Int) (input : List Char) : Option (Option Int × List Char) :=
  let digits := input.takeWhile Char.isDigit
  if digits.isEmpty then none
  else some (some (sign * Nat.ofDigitChars 10 digits 0), input.dropWhile Char.isDigit)

def readExponent : List Char → Option (Option Int × List Char)
  | 'e' :: '-' :: rest | 'E' :: '-' :: rest => readExponentDigits (-1) rest
  | 'e' :: '+' :: rest | 'E' :: '+' :: rest => readExponentDigits 1 rest
  | 'e' :: rest | 'E' :: rest => readExponentDigits 1 rest
  | rest => some (none, rest)

-- An integer, unless there is a fraction or an exponent.
def ofParts (negative : Bool) (whole : Nat) (fraction : List (Fin 10)) (exponent : Option Int) :
    Json :=
  if h : fraction ≠ [] ∨ exponent ≠ none then .decimal ⟨negative, whole, fraction, exponent, h⟩
  else .number (if negative then -whole else whole)

def readUnsigned (negative : Bool) (input : List Char) : Option (Json × List Char) := do
  let (whole, rest) ← readWhole input
  let (fraction, rest) ← readFraction rest
  let (exponent, rest) ← readExponent rest
  return (ofParts negative whole fraction exponent, rest)

def readNumber : List Char → Option (Json × List Char)
  | '-' :: rest => readUnsigned true rest
  | rest => readUnsigned false rest

-- The word at the front of a text that does not begin with a blank.
def readToken : List Char → Option (Token × List Char)
  | '[' :: rest => some (.openArray, rest)
  | ']' :: rest => some (.closeArray, rest)
  | '{' :: rest => some (.openObject, rest)
  | '}' :: rest => some (.closeObject, rest)
  | ',' :: rest => some (.comma, rest)
  | ':' :: rest => some (.colon, rest)
  | 'n' :: 'u' :: 'l' :: 'l' :: rest => some (.plain .null, rest)
  | 't' :: 'r' :: 'u' :: 'e' :: rest => some (.plain (.bool true), rest)
  | 'f' :: 'a' :: 'l' :: 's' :: 'e' :: rest => some (.plain (.bool false), rest)
  | '"' :: rest => (readText rest).map fun (value, rest) => (.text (String.ofList value), rest)
  | input => (readNumber input).map fun (value, rest) => (.plain value, rest)

-- The rest of a word that has been read already is skipped.
def tokensFrom : Nat → List Char → Option (List Token)
  | _, [] => some []
  | skip + 1, _ :: rest => tokensFrom skip rest
  | 0, c :: rest =>
    if isBlank c then tokensFrom 0 rest
    else do
      let (token, behind) ← readToken (c :: rest)
      return token :: (← tokensFrom (rest.length - behind.length) rest)

def tokens? (input : List Char) : Option (List Token) := tokensFrom 0 input

-- An open array or object: what it holds so far and, in an object, the key that waits for a value.
inductive Frame where
  | array (items : List Json)
  | object (fields : List (String × Json)) (key : String)
  deriving DecidableEq, Repr

-- What may come next. The frames around it are open, the innermost one first.
inductive Stage where
  | beforeValue (frames : List Frame)
  | beforeItem (frames : List Frame)
  | beforeField (frames : List Frame)
  | beforeKey (fields : List (String × Json)) (frames : List Frame)
  | beforeColon (fields : List (String × Json)) (key : String) (frames : List Frame)
  | afterValue (found : Json) (frames : List Frame)
  deriving DecidableEq, Repr

namespace Stage

def begin (frames : List Frame) : Token → Option Stage
  | .plain found => some (.afterValue found frames)
  | .text found => some (.afterValue (.text found) frames)
  | .openArray => some (.beforeItem frames)
  | .openObject => some (.beforeField frames)
  | _ => none

-- Right behind the opening an array or object may end, behind a comma it may not.
def step : Stage → Token → Option Stage
  | .beforeValue frames, token => begin frames token
  | .beforeItem frames, .closeArray => some (.afterValue (.array []) frames)
  | .beforeItem frames, token => begin (.array [] :: frames) token
  | .beforeField frames, .closeObject => some (.afterValue (.object []) frames)
  | .beforeField frames, .text name => some (.beforeColon [] name frames)
  | .beforeKey fields frames, .text name => some (.beforeColon fields name frames)
  | .beforeColon fields name frames, .colon => some (.beforeValue (.object fields name :: frames))
  | .afterValue found (.array items :: frames), .comma =>
    some (.beforeValue (.array (items ++ [found]) :: frames))
  | .afterValue found (.array items :: frames), .closeArray =>
    some (.afterValue (.array (items ++ [found])) frames)
  | .afterValue found (.object fields name :: frames), .comma =>
    some (.beforeKey (fields ++ [(name, found)]) frames)
  | .afterValue found (.object fields name :: frames), .closeObject =>
    some (.afterValue (.object (fields ++ [(name, found)])) frames)
  | _, _ => none

def run (stage : Stage) (tokens : List Token) : Option Stage := tokens.foldlM step stage

def result? : Stage → Option Json
  | .afterValue found [] => some found
  | _ => none

end Stage

-- The value that a text stands for, all of it, by the grammar of JSON.
def read? (input : String) : Option Json := do
  let stage ← (Stage.beforeValue []).run (← tokens? input.toList)
  stage.result?

end TokenMigration.Json
