namespace TokenMigration.Substitution

variable {α : Type} [BEq α]

-- The pieces are collected in reverse. After an occurrence the rest of it is skipped, so that the
-- next one starts at its end or later.
private def cutLoop (token : List α) : Nat → List α → List (List α) → List α → List (List α)
  | _, piece, pieces, [] => (piece.reverse :: pieces).reverse
  | skip + 1, piece, pieces, _ :: rest => cutLoop token skip piece pieces rest
  | 0, piece, pieces, c :: rest =>
    if token.isPrefixOf (c :: rest) then
      cutLoop token (token.length - 1) [] (piece.reverse :: pieces) rest
    else
      cutLoop token 0 (c :: piece) pieces rest

-- What stands before, between and after the occurrences of the token. From left to right each
-- occurrence is the first one that does not reach into the one before. The empty token occurs
-- before every element and at the end.
def cut (token text : List α) : List (List α) :=
  if token.isEmpty then [] :: text.map ([·]) ++ [[]]
  else cutLoop token 0 [] [] text

def occurrences (token text : List α) : Nat := (cut token text).length - 1

def replaceAll (token replacement text : List α) : List α :=
  replacement.intercalate (cut token text)

-- Each pair works on what the pairs before it have left. The count is the sum of the occurrences
-- that each pair has found.
def replaceInOrder : List (List α × List α) → List α → List α × Nat
  | [], text => (text, 0)
  | (token, replacement) :: pairs, text =>
    let found := occurrences token text
    let rest := replaceInOrder pairs (if found = 0 then text else replaceAll token replacement text)
    (rest.1, found + rest.2)

-- The pieces found so far and the piece just begun stay in front of what the rest is cut into.
private theorem cutLoop_eq (token : List α) (skip : Nat) (piece : List α) (pieces : List (List α))
    (text : List α) :
    cutLoop token skip piece pieces text =
      pieces.reverse ++ (cutLoop token skip [] [] text).modifyHead (piece.reverse ++ ·) := by
  induction text generalizing skip piece pieces with
  | nil => simp [cutLoop]
  | cons c rest ih =>
    cases skip with
    | succ skip => exact ih skip piece pieces
    | zero =>
      simp only [cutLoop]
      split
      · rw [ih _ [] (piece.reverse :: pieces), ih _ [] [[].reverse]]
        cases cutLoop token (token.length - 1) [] [] rest <;> simp
      · rw [ih _ (c :: piece) pieces, ih _ [c] []]
        cases cutLoop token 0 [] [] rest <;> simp

private theorem cutLoop_skip (token : List α) (skip : Nat) (text : List α) :
    cutLoop token skip [] [] text = cutLoop token 0 [] [] (text.drop skip) := by
  induction text generalizing skip with
  | nil => cases skip <;> rfl
  | cons c rest ih =>
    cases skip with
    | zero => rfl
    | succ skip => exact ih skip

theorem cut_empty_token (text : List α) : cut [] text = [] :: text.map ([·]) ++ [[]] := rfl

theorem cut_nil (token : List α) (h : token ≠ []) : cut token [] = [[]] := by
  simp [cut, h, cutLoop]

theorem cut_found [LawfulBEq α] (token rest : List α) (h : token ≠ []) :
    cut token (token ++ rest) = [] :: cut token rest := by
  obtain ⟨c, tail, rfl⟩ := List.exists_cons_of_ne_nil h
  have hp : (c :: tail).isPrefixOf (c :: (tail ++ rest)) = true := by simp
  simp only [cut, List.isEmpty_cons, List.cons_append, cutLoop, hp, if_true]
  rw [cutLoop_eq, cutLoop_skip]
  simp
  cases cutLoop (c :: tail) 0 [] [] rest <;> simp

theorem cut_cons (token : List α) (c : α) (rest : List α)
    (h : token.isPrefixOf (c :: rest) = false) :
    cut token (c :: rest) = (cut token rest).modifyHead (c :: ·) := by
  cases token with
  | nil => simp at h
  | cons d tail =>
    simp only [cut, List.isEmpty_cons, cutLoop, h]
    simp only [Bool.false_eq_true, if_false]
    rw [cutLoop_eq]
    simp

end TokenMigration.Substitution
