namespace TokenMigration

abbrev Bytes := List UInt8

namespace Utf8

def encode (text : String) : Bytes := text.toUTF8.data.toList

theorem encode_ofList (chars : List Char) :
    encode (String.ofList chars) = chars.flatMap String.utf8EncodeChar := by
  simp [encode, List.utf8Encode]

-- Only well-formed text is read: no overlong form, no surrogate, nothing above U+10FFFF.
def decode? (bytes : Bytes) : Option String := String.fromUTF8? ⟨bytes.toArray⟩

theorem decode?_eq_some_iff {bytes : Bytes} {text : String} :
    decode? bytes = some text ↔ bytes = encode text := by
  unfold decode? encode String.fromUTF8? String.toUTF8
  constructor
  · intro h
    split at h
    · cases h
      rfl
    · cases h
  · rintro rfl
    rw [dif_pos (by exact text.isValidUTF8)]
    rfl

def front? (bytes : Bytes) : Option Char :=
  ByteArray.utf8DecodeChar? ⟨(bytes.take 4).toArray⟩ 0

private def within (low high : UInt8) : Bytes → Bool
  | [] => false
  | byte :: _ => low ≤ byte && byte ≤ high

-- The second bytes that may follow a first byte of a three or four byte form.
private def secondByte (first : UInt8) : UInt8 × UInt8 :=
  if first = 0xE0 then (0xA0, 0xBF)
  else if first = 0xED then (0x80, 0x9F)
  else if first = 0xF0 then (0x90, 0xBF)
  else if first = 0xF4 then (0x80, 0x8F)
  else (0x80, 0xBF)

-- Where no character is written, the longest front that could still have become one, at least one
-- byte long.
def malformedLength : Bytes → Nat
  | [] => 0
  | first :: rest =>
    if first < 0xE0 || 0xF4 < first then 1
    else if !within (secondByte first).1 (secondByte first).2 rest then 1
    else if first < 0xF0 || !within 0x80 0xBF rest.tail then 2
    else 3

-- The bytes of the front that the first character of the result has used up already are skipped.
private def displayFrom : Nat → Bytes → List Char
  | _, [] => []
  | skip + 1, _ :: rest => displayFrom skip rest
  | 0, byte :: rest =>
    match front? (byte :: rest) with
    | some c => c :: displayFrom (c.utf8Size - 1) rest
    | none => '\uFFFD' :: displayFrom (malformedLength (byte :: rest) - 1) rest

-- The text of the bytes for a reader, with one U+FFFD for every malformed stretch.
def display (bytes : Bytes) : String := String.ofList (displayFrom 0 bytes)

private theorem displayFrom_append (skipped rest : Bytes) :
    displayFrom skipped.length (skipped ++ rest) = displayFrom 0 rest := by
  induction skipped with
  | nil => rfl
  | cons byte skipped ih => exact ih

theorem front?_utf8EncodeChar_append (c : Char) (rest : Bytes) :
    front? (String.utf8EncodeChar c ++ rest) = some c := by
  have hlength : (String.utf8EncodeChar c).length ≤ 4 := by
    rw [String.length_utf8EncodeChar]
    exact c.utf8Size_le_four
  have htake : (String.utf8EncodeChar c ++ rest).take 4 =
      String.utf8EncodeChar c ++ rest.take (4 - (String.utf8EncodeChar c).length) := by
    rw [List.take_append, List.take_of_length_le hlength]
  have hbytes (front back : Bytes) :
      (⟨(front ++ back).toArray⟩ : ByteArray) = front.toByteArray ++ back.toByteArray := by
    ext1
    simp
  rw [front?, htake, hbytes]
  exact ByteArray.utf8DecodeChar?_utf8EncodeChar_append

private theorem displayFrom_utf8EncodeChar_append (c : Char) (rest : Bytes) :
    displayFrom 0 (String.utf8EncodeChar c ++ rest) = c :: displayFrom 0 rest := by
  have hfront := front?_utf8EncodeChar_append c rest
  have hlength := String.length_utf8EncodeChar c
  cases hbytes : String.utf8EncodeChar c with
  | nil => exact absurd hbytes String.utf8EncodeChar_ne_nil
  | cons byte skipped =>
    rw [hbytes] at hfront hlength
    have hskipped : c.utf8Size - 1 = skipped.length := by
      rw [← hlength]
      rfl
    rw [List.cons_append] at hfront ⊢
    rw [displayFrom, hfront]
    simp only [hskipped, displayFrom_append]

-- A text is shown as itself.
theorem display_encode (text : String) : display (encode text) = text := by
  obtain ⟨chars, rfl⟩ : ∃ chars, text = String.ofList chars := ⟨text.toList, by simp⟩
  rw [display, encode_ofList]
  congr 1
  induction chars with
  | nil => rfl
  | cons c chars ih => rw [List.flatMap_cons, displayFrom_utf8EncodeChar_append, ih]

end Utf8

end TokenMigration
