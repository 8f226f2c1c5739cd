import Mathlib.Data.List.TakeWhile
import TokenMigration.Json.Printer
import TokenMigration.Proofs.Json.Reader

namespace TokenMigration.Json

section Text

theorem hexValue?_digitChar {n : Nat} (h : n < 16) : hexValue? (Nat.digitChar n) = some n := by
  have hall : ∀ n < 16, hexValue? (Nat.digitChar n) = some n := by decide
  exact hall n h

theorem unit?_control {n : Nat} (h : n < 0x20) :
    unit? '0' '0' (Nat.digitChar (n / 16)) (Nat.digitChar (n % 16)) = some n := by
  have hhigh := hexValue?_digitChar (n := n / 16) (by omega)
  have hlow := hexValue?_digitChar (n := n % 16) (by omega)
  have hzero : hexValue? '0' = some 0 := by decide
  simp only [unit?, hhigh, hlow, hzero, bind, Option.bind, pure]
  congr 1
  omega

theorem readText_plain {c : Char} (hquote : c ≠ '"') (hslash : c ≠ '\\') (hc : ¬c.toNat < 0x20)
    (rest : List Char) : readText (c :: rest) = (readText rest).map (putInFront c) := by
  rw [readText]
  · rw [if_neg hc]
  · exact hquote
  · rintro _ _ _ _ _ rfl
    exact absurd rfl hslash
  · rintro _ _ rfl
    exact absurd rfl hslash

theorem readText_control {n : Nat} (h : n < 0x20) (rest : List Char) :
    readText ('\\' :: 'u' :: '0' :: '0' :: Nat.digitChar (n / 16) :: Nat.digitChar (n % 16) ::
      rest) = (readText rest).map (putInFront (Char.ofNat n)) := by
  have hhigh : isHighSurrogate n = false := by simp [isHighSurrogate]; omega
  have hlow : isLowSurrogate n = false := by simp [isLowSurrogate]; omega
  simp only [readText, unit?_control h, bind, Option.bind, hhigh, hlow, Bool.false_eq_true,
    if_false]

-- What is written for a character reads as that character: short escapes, the other control
-- characters, and all that need no escape.
theorem readText_escape (c : Char) (rest : List Char) :
    readText (escape c ++ rest) = (readText rest).map (putInFront c) := by
  unfold escape
  split_ifs with h h h h h h h hcontrol
  iterate 7 (subst h; rfl)
  · rw [List.cons_append, List.cons_append, List.cons_append, List.cons_append, List.cons_append,
      List.cons_append, List.nil_append, readText_control hcontrol, Char.ofNat_toNat]
  · exact readText_plain (by assumption) (by assumption) hcontrol rest

theorem readText_quoted (text : List Char) (rest : List Char) :
    readText (text.flatMap escape ++ '"' :: rest) = some (text, rest) := by
  induction text with
  | nil => rfl
  | cons c text ih =>
    rw [List.flatMap_cons, List.append_assoc, readText_escape, ih]
    rfl

end Text

section Number

-- The text does not go on with a number that stands in front of it.
def Apart (rest : List Char) : Prop :=
  ∀ c ∈ rest.head?, c.isDigit = false ∧ c ≠ '.' ∧ c ≠ 'e' ∧ c ≠ 'E'

theorem takeWhile_append_of_head {p : Char → Bool} {front rest : List Char}
    (hfront : ∀ c ∈ front, p c = true) (hrest : ∀ c ∈ rest.head?, p c = false) :
    (front ++ rest).takeWhile p = front ∧ (front ++ rest).dropWhile p = rest := by
  rw [List.takeWhile_append_of_pos hfront, List.dropWhile_append_of_pos hfront]
  cases rest with
  | nil => simp
  | cons c rest => simp [hrest c rfl]

theorem head?_toDigits {n : Nat} (h : 0 < n) : (Nat.toDigits 10 n).head? ≠ some '0' := by
  induction n using Nat.strongRecOn with
  | ind n ih =>
    by_cases hn : n < 10
    · simp [Nat.toDigits_of_lt_base hn]
      omega
    · rw [Nat.toDigits_of_base_le (by omega) (by omega), List.head?_append]
      have hne := List.isSome_head?.mpr (Nat.toDigits_ne_nil (n := n / 10) (b := 10))
      rw [Option.or_of_isSome hne]
      exact ih (n / 10) (by omega) (by omega)

theorem readWhole_toDigits (n : Nat) {rest : List Char}
    (hrest : ∀ c ∈ rest.head?, c.isDigit = false) :
    readWhole (Nat.toDigits 10 n ++ rest) = some (n, rest) := by
  have hdigits := fun c => Nat.isDigit_of_mem_toDigits (c := c) (n := n) (b := 10) (by omega) le_rfl
  obtain ⟨htake, hdrop⟩ := takeWhile_append_of_head hdigits hrest
  have hzero : ((Nat.toDigits 10 n).head? == some '0' && decide (1 < (Nat.toDigits 10 n).length)) =
      false := by
    cases n with
    | zero => rfl
    | succ n => simp [head?_toDigits]
  simp only [readWhole, htake, hdrop, hzero, Nat.ofDigitChars_ten_toDigits]
  simp [Nat.toDigits_ne_nil]

theorem readFraction_print (fraction : List (Fin 10)) {rest : List Char}
    (hrest : ∀ c ∈ rest.head?, c.isDigit = false ∧ c ≠ '.') :
    readFraction (printFraction fraction ++ rest) = some (fraction, rest) := by
  cases fraction with
  | nil =>
    cases rest with
    | nil => rfl
    | cons c rest =>
      rw [printFraction, List.nil_append, readFraction]
      rintro _ ⟨⟩
      exact (hrest '.' rfl).2 rfl
  | cons first fraction =>
    have hdigits : ∀ c ∈ (first :: fraction).map (Nat.digitChar ·.val), c.isDigit = true := by
      intro c hc
      obtain ⟨n, -, rfl⟩ := List.mem_map.mp hc
      simp [Nat.isDigit_digitChar, n.isLt]
    obtain ⟨htake, hdrop⟩ := takeWhile_append_of_head hdigits fun c hc => (hrest c hc).1
    have hvalue : ∀ n : Fin 10, digit (Nat.digitChar n.val) = n := by decide
    simp only [printFraction, List.cons_append, readFraction]
    rw [htake, hdrop, List.map_map]
    simp [Function.comp_def, hvalue]

theorem toList_toString_natCast (n : Nat) : (toString (n : Int)).toList = Nat.toDigits 10 n :=
  Nat.toList_repr

theorem toList_toString_negSucc (n : Nat) :
    (toString (Int.negSucc n)).toList = '-' :: Nat.toDigits 10 (n + 1) := by
  have h : toString (Int.negSucc n) = "-" ++ Nat.repr (n + 1) := rfl
  rw [h, String.toList_append, Nat.toList_repr]
  rfl

theorem readExponentDigits_toDigits (sign : Int) (n : Nat) {rest : List Char}
    (hrest : ∀ c ∈ rest.head?, c.isDigit = false) :
    readExponentDigits sign (Nat.toDigits 10 n ++ rest) = some (some (sign * n), rest) := by
  have hdigits := fun c => Nat.isDigit_of_mem_toDigits (c := c) (n := n) (b := 10) (by omega) le_rfl
  obtain ⟨htake, hdrop⟩ := takeWhile_append_of_head hdigits hrest
  simp only [readExponentDigits, htake, hdrop, Nat.ofDigitChars_ten_toDigits]
  simp [Nat.toDigits_ne_nil]

theorem exists_toDigits (n : Nat) :
    ∃ c tail, Nat.toDigits 10 n = c :: tail ∧ c.isDigit = true := by
  obtain ⟨c, tail, h⟩ := List.exists_cons_of_ne_nil (Nat.toDigits_ne_nil (n := n) (b := 10))
  have hc := Nat.isDigit_of_mem_toDigits (b := 10) (n := n) (c := c) (by omega) le_rfl
  exact ⟨c, tail, h, hc (by simp [h])⟩

theorem readExponent_digit {c : Char} (hc : c.isDigit = true) (rest : List Char) :
    readExponent ('e' :: c :: rest) = readExponentDigits 1 (c :: rest) := by
  rw [readExponent]
  all_goals
    rintro _ ⟨⟩
    exact absurd hc (by decide)

theorem readExponent_print (exponent : Option Int) {rest : List Char} (hrest : Apart rest) :
    readExponent (printExponent exponent ++ rest) = some (exponent, rest) := by
  have hdigit := fun c hc => (hrest c hc).1
  match exponent with
  | none =>
    cases rest with
    | nil => rfl
    | cons c rest =>
      obtain ⟨-, -, hlower, hupper⟩ := hrest c rfl
      rw [printExponent, List.nil_append, readExponent]
      all_goals
        rintro _ ⟨⟩
        contradiction
  | some (.ofNat n) =>
    have hread := readExponentDigits_toDigits 1 n hdigit
    obtain ⟨c, tail, hn, hc⟩ := exists_toDigits n
    rw [printExponent, Int.ofNat_eq_natCast, toList_toString_natCast]
    rw [hn, List.cons_append] at hread ⊢
    rw [List.cons_append, readExponent_digit hc, hread, Int.one_mul]
  | some (.negSucc n) =>
    have hread := readExponentDigits_toDigits (-1) (n + 1) hdigit
    have hvalue : -1 * ((n + 1 : Nat) : Int) = Int.negSucc n := by omega
    rw [hvalue] at hread
    rw [printExponent, toList_toString_negSucc]
    exact hread

def sign (negative : Bool) : List Char := if negative then ['-'] else []

theorem head?_printFraction_append {fraction : List (Fin 10)} {rest : List Char} {c : Char}
    (h : c ∈ (printFraction fraction ++ rest).head?) : c = '.' ∨ c ∈ rest.head? := by
  cases fraction with
  | nil => exact .inr h
  | cons first fraction => exact .inl (by simpa [printFraction] using h.symm)

theorem head?_printExponent_append {exponent : Option Int} {rest : List Char} {c : Char}
    (h : c ∈ (printExponent exponent ++ rest).head?) : c = 'e' ∨ c ∈ rest.head? := by
  cases exponent with
  | none => exact .inr h
  | some exponent => exact .inl (by simpa [printExponent] using h.symm)

theorem readUnsigned_print (negative : Bool) (whole : Nat) (fraction : List (Fin 10))
    (exponent : Option Int) {rest : List Char} (hrest : Apart rest) :
    readUnsigned negative (Nat.toDigits 10 whole ++
        (printFraction fraction ++ (printExponent exponent ++ rest))) =
      some (ofParts negative whole fraction exponent, rest) := by
  have hexponent : ∀ c ∈ (printExponent exponent ++ rest).head?,
      c.isDigit = false ∧ c ≠ '.' := by
    intro c hc
    obtain rfl | hc := head?_printExponent_append hc
    · decide
    · exact ⟨(hrest c hc).1, (hrest c hc).2.1⟩
  have hfraction : ∀ c ∈ (printFraction fraction ++ (printExponent exponent ++ rest)).head?,
      c.isDigit = false := by
    intro c hc
    obtain rfl | hc := head?_printFraction_append hc
    · decide
    · exact (hexponent c hc).1
  simp only [readUnsigned, readWhole_toDigits whole hfraction,
    readFraction_print fraction hexponent, readExponent_print exponent hrest, bind, Option.bind,
    pure]

-- A number reads back from its sign, its digits and what is marked behind them.
theorem readNumber_print (negative : Bool) (whole : Nat) (fraction : List (Fin 10))
    (exponent : Option Int) {rest : List Char} (hrest : Apart rest) :
    readNumber (sign negative ++ (Nat.toDigits 10 whole ++
        (printFraction fraction ++ (printExponent exponent ++ rest)))) =
      some (ofParts negative whole fraction exponent, rest) := by
  have hread := readUnsigned_print negative whole fraction exponent hrest
  cases negative with
  | true => exact hread
  | false =>
    obtain ⟨c, tail, hwhole, hc⟩ := exists_toDigits whole
    rw [hwhole, List.cons_append] at hread ⊢
    rw [sign, if_neg Bool.false_ne_true, List.nil_append, readNumber, hread]
    rintro _ ⟨⟩
    exact absurd hc (by decide)

theorem toList_toString (value : Int) :
    (toString value).toList = sign (value < 0) ++ Nat.toDigits 10 value.natAbs := by
  match value with
  | .ofNat n => exact toList_toString_natCast n
  | .negSucc n =>
    rw [toList_toString_negSucc, sign, if_pos (by simp [Int.negSucc_lt_zero])]
    rfl

theorem ofParts_decimal (value : Decimal) :
    ofParts value.negative value.whole value.fraction value.exponent = .decimal value := by
  rw [ofParts, dif_pos value.marked]

theorem ofParts_number (value : Int) :
    ofParts (value < 0) value.natAbs [] none = .number value := by
  simp only [ofParts, ne_eq, not_true_eq_false, or_self, dite_false, decide_eq_true_eq]
  congr 1
  split <;> omega

end Number

end TokenMigration.Json
