import TokenMigration.Proofs.Json.Words

namespace TokenMigration.Json

mutual

-- The words of a value. Neither the style nor the depth of its text has a part in them.
def tokens : Json → List Token
  | .text value => [.text value]
  | .array [] => [.openArray, .closeArray]
  | .array (item :: items) => .openArray :: item.tokens ++ tokensItems items ++ [.closeArray]
  | .object [] => [.openObject, .closeObject]
  | .object ((key, value) :: fields) =>
    .openObject :: .text key :: .colon :: value.tokens ++ tokensFields fields ++ [.closeObject]
  | value => [.plain value]

def tokensItems : List Json → List Token
  | [] => []
  | item :: items => .comma :: item.tokens ++ tokensItems items

def tokensFields : List (String × Json) → List Token
  | [] => []
  | (key, value) :: fields => .comma :: .text key :: .colon :: value.tokens ++ tokensFields fields

end

section Lexing

theorem tokensFrom_skip (skip : Nat) (input : List Char) :
    tokensFrom skip input = tokensFrom 0 (input.drop skip) := by
  induction input generalizing skip with
  | nil => cases skip <;> rfl
  | cons c input ih =>
    cases skip with
    | zero => rfl
    | succ skip => exact ih skip

theorem tokens?_blank {c : Char} (h : isBlank c = true) (rest : List Char) :
    tokens? (c :: rest) = tokens? rest := by
  rw [tokens?, tokensFrom, if_pos h]
  rfl

theorem tokens?_blanks {blanks : List Char} (h : ∀ c ∈ blanks, isBlank c = true)
    (rest : List Char) : tokens? (blanks ++ rest) = tokens? rest := by
  induction blanks with
  | nil => rfl
  | cons c blanks ih =>
    rw [List.cons_append, tokens?_blank (h c (by simp))]
    exact ih fun d hd => h d (by simp [hd])

theorem tokens?_word {c : Char} {word rest : List Char} {token : Token}
    (hc : isBlank c = false) (hread : readToken (c :: (word ++ rest)) = some (token, rest)) :
    tokens? (c :: (word ++ rest)) = (tokens? rest).map (token :: ·) := by
  have hskip : (word ++ rest).length - rest.length = word.length := by simp
  rw [tokens?, tokensFrom, if_neg (by simp [hc]), hread]
  simp only [bind, Option.bind, hskip]
  rw [tokensFrom_skip, List.drop_left, tokens?]
  cases tokensFrom 0 rest <;> rfl

theorem tokens?_lineBreak (style : Style) (depth : Nat) (rest : List Char) :
    tokens? (lineBreak style depth ++ rest) = tokens? rest := by
  apply tokens?_blanks
  cases style with
  | compact => simp [lineBreak]
  | indented =>
    intro c hc
    rw [lineBreak, List.mem_cons] at hc
    obtain rfl | hc := hc
    · rfl
    · rw [List.eq_of_mem_replicate hc]
      rfl

theorem tokens?_mark {c : Char} {token : Token} (hc : isBlank c = false)
    (hread : ∀ rest, readToken (c :: rest) = some (token, rest)) (rest : List Char) :
    tokens? (c :: rest) = (tokens? rest).map (token :: ·) :=
  @tokens?_word c [] rest token hc (hread rest)

theorem tokens?_colon (style : Style) (rest : List Char) :
    tokens? (colon style ++ rest) = (tokens? rest).map (.colon :: ·) := by
  cases style with
  | compact => exact tokens?_mark rfl (fun _ => rfl) rest
  | indented =>
    have hblank : tokens? (' ' :: rest) = tokens? rest := tokens?_blank rfl rest
    rw [← hblank]
    exact tokens?_mark rfl (fun _ => rfl) (' ' :: rest)

theorem tokens?_quoted (value : String) (rest : List Char) :
    tokens? (quoted value ++ rest) = (tokens? rest).map (.text value :: ·) := by
  have hread : readToken ('"' :: (value.toList.flatMap escape ++ ['"'] ++ rest)) =
      some (.text value, rest) := by
    rw [readToken, List.append_assoc, List.singleton_append, readText_quoted]
    simp
  exact tokens?_word rfl hread

theorem readToken_digit {c : Char} (hc : c = '-' ∨ c.isDigit = true) (rest : List Char) :
    readToken (c :: rest) =
      (readNumber (c :: rest)).map fun (value, rest) => (.plain value, rest) := by
  rw [readToken]
  all_goals
    rintro _ ⟨⟩
    exact absurd hc (by decide)

theorem tokens?_number (negative : Bool) (whole : Nat) (fraction : List (Fin 10))
    (exponent : Option Int) {rest : List Char} (hrest : Apart rest) :
    tokens? (sign negative ++ (Nat.toDigits 10 whole ++
        (printFraction fraction ++ (printExponent exponent ++ rest)))) =
      (tokens? rest).map (.plain (ofParts negative whole fraction exponent) :: ·) := by
  have hread := readNumber_print negative whole fraction exponent hrest
  have hfront : ∃ c word, (c = '-' ∨ c.isDigit = true) ∧
      sign negative ++ (Nat.toDigits 10 whole ++
        (printFraction fraction ++ (printExponent exponent ++ rest))) = c :: (word ++ rest) := by
    obtain ⟨c, tail, hwhole, hc⟩ := exists_toDigits whole
    cases negative with
    | true =>
      exact ⟨'-', Nat.toDigits 10 whole ++ (printFraction fraction ++ printExponent exponent),
        .inl rfl, by simp [sign]⟩
    | false =>
      exact ⟨c, tail ++ (printFraction fraction ++ printExponent exponent), .inr hc,
        by simp [sign, hwhole]⟩
  obtain ⟨c, word, hc, hinput⟩ := hfront
  rw [hinput] at hread ⊢
  refine tokens?_word ?_ (by rw [readToken_digit hc, hread]; rfl)
  obtain rfl | hc := hc
  · rfl
  · simp only [isBlank, Bool.or_eq_false_iff, decide_eq_false_iff_not]
    refine ⟨⟨⟨?_, ?_⟩, ?_⟩, ?_⟩
    all_goals
      rintro rfl
      exact absurd hc (by decide)

theorem tokens?_openArray (rest : List Char) :
    tokens? ('[' :: rest) = (tokens? rest).map (.openArray :: ·) :=
  tokens?_mark rfl (fun _ => rfl) rest

theorem tokens?_closeArray (rest : List Char) :
    tokens? (']' :: rest) = (tokens? rest).map (.closeArray :: ·) :=
  tokens?_mark rfl (fun _ => rfl) rest

theorem tokens?_openObject (rest : List Char) :
    tokens? ('{' :: rest) = (tokens? rest).map (.openObject :: ·) :=
  tokens?_mark rfl (fun _ => rfl) rest

theorem tokens?_closeObject (rest : List Char) :
    tokens? ('}' :: rest) = (tokens? rest).map (.closeObject :: ·) :=
  tokens?_mark rfl (fun _ => rfl) rest

theorem tokens?_comma (rest : List Char) :
    tokens? (',' :: rest) = (tokens? rest).map (.comma :: ·) :=
  tokens?_mark rfl (fun _ => rfl) rest

theorem apart_of_head {c : Char} (h : c.isDigit = false ∧ c ≠ '.' ∧ c ≠ 'e' ∧ c ≠ 'E')
    (rest : List Char) : Apart (c :: rest) := by
  rintro _ ⟨⟩
  exact h

theorem apart_lineBreak (style : Style) (depth : Nat) {rest : List Char} (h : Apart rest) :
    Apart (lineBreak style depth ++ rest) := by
  cases style with
  | compact => exact h
  | indented => exact apart_of_head (by decide) _

theorem apart_printItems (style : Style) (depth : Nat) (items : List Json) {rest : List Char}
    (h : Apart rest) : Apart (printItems style depth items ++ rest) := by
  cases items with
  | nil => exact h
  | cons item items => exact apart_of_head (by decide) _

theorem apart_printFields (style : Style) (depth : Nat) (fields : List (String × Json))
    {rest : List Char} (h : Apart rest) : Apart (printFields style depth fields ++ rest) := by
  cases fields with
  | nil => exact h
  | cons field fields => exact apart_of_head (by decide) _

mutual

theorem tokens?_print (style : Style) (depth : Nat) (value : Json) {rest : List Char}
    (hrest : Apart rest) :
    tokens? (value.print style depth ++ rest) = (tokens? rest).map (value.tokens ++ ·) := by
  cases value with
  | null => exact tokens?_word rfl rfl
  | bool value => cases value <;> exact tokens?_word rfl rfl
  | number value =>
    have hread := tokens?_number (value < 0) value.natAbs [] none hrest
    rw [ofParts_number] at hread
    simp only [print, toList_toString, List.append_assoc]
    exact hread
  | decimal value =>
    have hread := tokens?_number value.negative value.whole value.fraction value.exponent hrest
    rw [ofParts_decimal] at hread
    simp only [print, Decimal.print, List.append_assoc]
    exact hread
  | text value => exact tokens?_quoted value rest
  | array items =>
    cases items with
    | nil =>
      simp only [print, List.cons_append, List.nil_append, tokens?_openArray, tokens?_closeArray]
      cases tokens? rest <;> rfl
    | cons item items =>
      have hclose : Apart (lineBreak style depth ++ (']' :: rest)) :=
        apart_lineBreak style depth (apart_of_head (by decide) rest)
      have hitems := apart_printItems style (depth + 1) items hclose
      simp only [print, List.cons_append, List.append_assoc, List.nil_append, tokens?_openArray,
        tokens?_lineBreak]
      rw [tokens?_print style (depth + 1) item hitems,
        tokens?_printItems style (depth + 1) items hclose, tokens?_lineBreak, tokens?_closeArray]
      cases tokens? rest <;> simp [tokens]
  | object fields =>
    cases fields with
    | nil =>
      simp only [print, List.cons_append, List.nil_append, tokens?_openObject, tokens?_closeObject]
      cases tokens? rest <;> rfl
    | cons field fields =>
      have hclose : Apart (lineBreak style depth ++ ('}' :: rest)) :=
        apart_lineBreak style depth (apart_of_head (by decide) rest)
      have hfields := apart_printFields style (depth + 1) fields hclose
      simp only [print, List.cons_append, List.append_assoc, List.nil_append, tokens?_openObject,
        tokens?_lineBreak, tokens?_quoted, tokens?_colon]
      rw [tokens?_print style (depth + 1) field.2 hfields,
        tokens?_printFields style (depth + 1) fields hclose, tokens?_lineBreak, tokens?_closeObject]
      cases tokens? rest <;> simp [tokens]

theorem tokens?_printItems (style : Style) (depth : Nat) (items : List Json) {rest : List Char}
    (hrest : Apart rest) :
    tokens? (printItems style depth items ++ rest) =
      (tokens? rest).map (tokensItems items ++ ·) := by
  cases items with
  | nil => cases h : tokens? rest <;> simp [printItems, tokensItems, h]
  | cons item items =>
    have hitems := apart_printItems style depth items hrest
    rw [printItems]
    simp only [List.cons_append, List.append_assoc, tokens?_comma, tokens?_lineBreak]
    rw [tokens?_print style depth item hitems, tokens?_printItems style depth items hrest]
    cases tokens? rest <;> simp [tokensItems]

theorem tokens?_printFields (style : Style) (depth : Nat) (fields : List (String × Json))
    {rest : List Char} (hrest : Apart rest) :
    tokens? (printFields style depth fields ++ rest) =
      (tokens? rest).map (tokensFields fields ++ ·) := by
  cases fields with
  | nil => cases h : tokens? rest <;> simp [printFields, tokensFields, h]
  | cons field fields =>
    have hfields := apart_printFields style depth fields hrest
    rw [printFields]
    simp only [List.cons_append, List.append_assoc, tokens?_comma, tokens?_lineBreak,
      tokens?_quoted, tokens?_colon]
    rw [tokens?_print style depth field.2 hfields, tokens?_printFields style depth fields hrest]
    cases tokens? rest <;> simp [tokensFields]

end

end Lexing

section Parsing

theorem run_cons (stage : Stage) (token : Token) (tokens : List Token) :
    stage.run (token :: tokens) = (stage.step token).bind (·.run tokens) := rfl

-- Behind the opening of an array a value is read like behind a comma, for it does not begin with
-- the end of the array.
theorem run_beforeItem (item : Json) (frames : List Frame) (tokens : List Token) :
    (Stage.beforeItem frames).run (item.tokens ++ tokens) =
      (Stage.beforeValue (.array [] :: frames)).run (item.tokens ++ tokens) := by
  cases item with
  | array items => cases items <;> rfl
  | object fields => cases fields <;> rfl
  | _ => rfl

mutual

theorem run_value (value : Json) (frames : List Frame) (tokens : List Token) :
    (Stage.beforeValue frames).run (value.tokens ++ tokens) =
      (Stage.afterValue value frames).run tokens := by
  cases value with
  | array items =>
    cases items with
    | nil => rfl
    | cons item items =>
      have hfirst := run_value item (.array [] :: frames)
        (tokensItems items ++ .closeArray :: tokens)
      have hrest := run_items item items [] frames tokens
      rw [← run_beforeItem] at hfirst
      rw [hrest] at hfirst
      rw [Json.tokens]
      simpa [run_cons, Stage.step, Stage.begin] using hfirst
  | object fields =>
    cases fields with
    | nil => rfl
    | cons field fields =>
      have hfirst := run_value field.2 (.object [] field.1 :: frames)
        (tokensFields fields ++ .closeObject :: tokens)
      rw [run_fields field.2 fields [] field.1 frames tokens] at hfirst
      rw [Json.tokens]
      simpa [run_cons, Stage.step, Stage.begin] using hfirst
  | _ => rfl

theorem run_items (found : Json) (items done : List Json) (frames : List Frame)
    (tokens : List Token) :
    (Stage.afterValue found (.array done :: frames)).run
        (tokensItems items ++ .closeArray :: tokens) =
      (Stage.afterValue (.array (done ++ found :: items)) frames).run tokens := by
  cases items with
  | nil => rfl
  | cons item items =>
    have hitem := run_value item (.array (done ++ [found]) :: frames)
      (tokensItems items ++ .closeArray :: tokens)
    rw [run_items item items (done ++ [found]) frames tokens, List.append_assoc] at hitem
    rw [tokensItems]
    simpa [run_cons, Stage.step] using hitem

theorem run_fields (found : Json) (fields done : List (String × Json)) (name : String)
    (frames : List Frame) (tokens : List Token) :
    (Stage.afterValue found (.object done name :: frames)).run
        (tokensFields fields ++ .closeObject :: tokens) =
      (Stage.afterValue (.object (done ++ (name, found) :: fields)) frames).run tokens := by
  cases fields with
  | nil => rfl
  | cons field fields =>
    have hfield := run_value field.2 (.object (done ++ [(name, found)]) field.1 :: frames)
      (tokensFields fields ++ .closeObject :: tokens)
    rw [run_fields field.2 fields (done ++ [(name, found)]) field.1 frames tokens,
      List.append_assoc] at hfield
    rw [tokensFields]
    simpa [run_cons, Stage.step] using hfield

end

end Parsing

-- A printed value reads back as itself, in either style, and so it does in front of blanks.
theorem read?_print (style : Style) (depth : Nat) (value : Json) {blanks : List Char}
    (h : ∀ c ∈ blanks, isBlank c = true) :
    read? (String.ofList (value.print style depth ++ blanks)) = some value := by
  have hblanks : tokens? blanks = some [] := by
    have hread := tokens?_blanks h []
    rwa [List.append_nil] at hread
  have hapart : Apart blanks := by
    intro c hc
    have hblank := h c (List.mem_of_mem_head? hc)
    simp only [isBlank, Bool.or_eq_true, decide_eq_true_eq] at hblank
    obtain ((rfl | rfl) | rfl) | rfl := hblank <;> decide
  have hrun := run_value value [] []
  rw [List.append_nil] at hrun
  rw [read?, String.toList_ofList, tokens?_print style depth value hapart, hblanks]
  simp only [Option.map_some, List.append_nil, bind, Option.bind, hrun]
  rfl

theorem read?_compact (value : Json) : read? value.compact = some value := by
  have h := @read?_print .compact 0 value [] (by simp)
  rwa [List.append_nil] at h

theorem read?_pretty (value : Json) : read? value.pretty = some value := by
  have h := @read?_print .indented 0 value [] (by simp)
  rwa [List.append_nil] at h

end TokenMigration.Json
