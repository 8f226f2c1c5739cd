namespace TokenMigration.ControlSequence

-- What the next character of a text is part of. A control sequence ends with its final character, a
-- control string with the byte 9C, a system command with BEL.
inductive State where
  | plain
  | escape
  | escapeIntermediate
  | sequence
  | deviceHead
  | deviceParameters
  | deviceIntermediate
  | controlString
  | systemCommand
  deriving DecidableEq, Repr

def delete : Char := '\x7f'

def isControl (c : Char) : Bool := c < ' ' || c = delete

def isBlank (c : Char) : Bool := c = ' ' || c = '\t' || c = '\n' || c = '\x0c' || c = '\r'

def isText (c : Char) : Bool := isBlank c || !isControl c

namespace State

-- Blank controls are carried out in the middle of a sequence, but belong to the content of a
-- string.
def isString : State → Bool
  | .plain | .escape | .escapeIntermediate | .sequence => false
  | .deviceHead | .deviceParameters | .deviceIntermediate => true
  | .controlString | .systemCommand => true

-- CAN and SUB cancel everything, ESC starts anew. Other controls change nothing, apart from the end
-- of a system command.
def afterControl (state : State) (c : Char) : State :=
  if c = '\x18' || c = '\x1a' then .plain
  else if c = '\x1b' then .escape
  else if state = .systemCommand && c = '\x07' then .plain
  else state

-- Other characters are read byte by byte, so a control string can end within one.
def afterWide (state : State) (c : Char) : State :=
  if state = .controlString && (String.utf8EncodeChar c).contains 0x9C then .plain else state

-- ASCII has intermediates up to '/', parameters up to '?', and final characters above.
def afterGraphic (c : Char) : State → State
  | .plain => .plain
  | .escape =>
    if c ≤ '/' then .escapeIntermediate
    else if c = '[' then .sequence
    else if c = ']' then .systemCommand
    else if c = 'P' then .deviceHead
    else if c = 'X' || c = '^' || c = '_' then .controlString
    else .plain
  | .escapeIntermediate => if c ≤ '/' then .escapeIntermediate else .plain
  | .sequence => if c ≤ '?' then .sequence else .plain
  | .deviceHead =>
    if c ≤ '/' then .deviceIntermediate
    else if c ≤ '?' then .deviceParameters
    else .controlString
  | .deviceParameters =>
    if c ≤ '/' then .deviceIntermediate
    else if c ≤ ';' then .deviceParameters
    else .controlString
  | .deviceIntermediate => if c ≤ '/' then .deviceIntermediate else .controlString
  | .controlString => .controlString
  | .systemCommand => .systemCommand

def after (state : State) (c : Char) : State :=
  if isControl c then state.afterControl c
  else if c ≤ delete then state.afterGraphic c
  else state.afterWide c

end State

-- A blank control within a sequence makes the text behind it visible until the next control that is
-- not blank, where the sequence goes on unless a character beyond ASCII has come in between.
def removeFrom : State → Bool → List Char → List Char
  | _, _, [] => []
  | state, visible, c :: rest =>
    if visible || state = .plain then
      if isText c then c :: removeFrom (if c ≤ delete then state else .plain) true rest
      else removeFrom (state.after c) false rest
    else if isBlank c && isControl c && !state.isString then c :: removeFrom state true rest
    else removeFrom (state.after c) false rest

-- The text without control sequences and controls that are not blank, as a plain reader sees it.
def remove (text : String) : String := String.ofList (removeFrom .plain true text.toList)

theorem removeFrom_eq_self {text : List Char} (h : ∀ c ∈ text, isText c) :
    removeFrom .plain true text = text := by
  induction text with
  | nil => rfl
  | cons c rest ih =>
    have hc : isText c := h c List.mem_cons_self
    have hrest := ih fun d hd => h d (List.mem_cons_of_mem c hd)
    simp [removeFrom, hc, hrest]

end TokenMigration.ControlSequence
