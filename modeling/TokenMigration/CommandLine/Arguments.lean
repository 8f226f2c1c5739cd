import TokenMigration.Files.Path

namespace TokenMigration.CommandLine

inductive Argument where
  | root
  | dryRun
  | json
  | help
  | version
  deriving DecidableEq, Repr

namespace Argument

def all : List Argument := [.root, .dryRun, .json, .help, .version]

def name : Argument → String
  | .root => "root"
  | .dryRun => "dry-run"
  | .json => "json"
  | .help => "help"
  | .version => "version"

def ofName? (name : Bytes) : Option Argument :=
  all.find? fun argument => Utf8.encode argument.name = name

def ofLetter? : Char → Option Argument
  | 'h' => some .help
  | 'V' => some .version
  | _ => none

def shown : Argument → String
  | .root => "--root <DIR>"
  | argument => s!"--{argument.name}"

-- The arguments that say what is migrated are shown together, as one group.
def isGrouped : Argument → Bool
  | .root | .dryRun => true
  | _ => false

def group : String := "<" ++ "|".intercalate ((all.filter isGrouped).map shown) ++ ">"

end Argument

structure Invocation where
  root : Option Path := none
  dryRun : Bool := false
  json : Bool := false
  deriving DecidableEq, Repr

-- What a usage line shows: that there are options, or the arguments of this call, either one by one
-- or with the group at the end in the place of its members.
inductive Usage where
  | anyOptions
  | listing (arguments : List Argument)
  | grouping (arguments : List Argument)
  deriving DecidableEq, Repr

namespace Usage

def ofGiven : List Argument → Usage
  | [] => .anyOptions
  | given => .listing given

-- A further argument does not bring the group in, even as one of its members.
def adding (given : List Argument) (argument : Argument) : Usage :=
  let arguments := if given.contains argument then given else given ++ [argument]
  if given.any Argument.isGrouped then .grouping arguments else .listing arguments

end Usage

inductive Misuse where
  | unexpectedArgument (shown : String) (usage : Usage)
  | unexpectedValue (shown : String) (argument : Argument) (usage : Usage)
  | missingValue (argument : Argument)
  | repeated (argument : Argument)
  deriving DecidableEq, Repr

inductive Stop where
  | help
  | version
  | misuse (reason : Misuse)
  deriving DecidableEq, Repr

-- The arguments read so far, in their order. A root that has been named is pending, first without
-- and then with the value that follows it, and settled by the next known argument or the end.
structure Reading where
  root : Option Path := none
  given : List Argument := []
  pending : Option (Option Bytes) := none
  deriving DecidableEq, Repr

namespace Reading

def invocation (reading : Reading) : Invocation where
  root := reading.root
  dryRun := reading.given.contains .dryRun
  json := reading.given.contains .json

def give (reading : Reading) (argument : Argument) : Except Stop Reading :=
  if reading.given.contains argument then .error (.misuse (.repeated argument))
  else .ok { reading with given := reading.given ++ [argument] }

def settleRoot (reading : Reading) (value : Bytes) : Except Stop Reading := do
  let reading ← reading.give .root
  if value.isEmpty then .error (.misuse (.missingValue .root))
  else return { reading with root := some ⟨value⟩, pending := none }

def settle (reading : Reading) : Except Stop Reading :=
  match reading.pending with
  | none => .ok reading
  | some none => .error (.misuse (.missingValue .root))
  | some (some value) => reading.settleRoot value

-- A pending root counts as soon as it has a value, even an empty one. Where it is the second one,
-- neither counts.
def givenOrPending (reading : Reading) : List Argument :=
  if reading.pending.join.isNone then reading.given
  else if reading.given.contains .root then reading.given.erase .root
  else reading.given ++ [.root]

def take (reading : Reading) (argument : Argument) : Except Stop Reading := do
  let reading ← reading.settle
  match argument with
  | .root => .ok { reading with pending := some none }
  | .dryRun | .json => reading.give argument
  | .help => .error .help
  | .version => .error .version

def unexpected {α : Type} (text : String) : Except Stop α :=
  .error (.misuse (.unexpectedArgument text .anyOptions))

-- What stands behind two dashes. Only the root takes a value behind an equals sign.
def takeLong (reading : Reading) (body : Bytes) : Except Stop Reading :=
  let equals : UInt8 := 61
  let name := body.takeWhile (· != equals)
  let value? := if body.contains equals then some ((body.dropWhile (· != equals)).drop 1) else none
  match Argument.ofName? name, value? with
  | some argument, none => reading.take argument
  | some .root, some value => do (← reading.settle).settleRoot value
  | some argument, some value =>
    .error (.misuse (.unexpectedValue (Utf8.display value) argument
      (.adding reading.given argument)))
  | none, _ =>
    .error (.misuse (.unexpectedArgument s!"--{Utf8.display name}"
      (.ofGiven reading.givenOrPending)))

-- What stands behind one dash, letter by letter. The first letter that is known stops the reading,
-- and so does the first one that is not.
def takeShort (reading : Reading) (body : Bytes) : Except Stop Reading :=
  match Utf8.front? body with
  | none => unexpected s!"-{Utf8.display body}"
  | some letter =>
    match Argument.ofLetter? letter with
    | some argument => reading.take argument
    | none => unexpected s!"-{letter}"

end Reading

-- Two dashes alone end the options, and nothing may stand behind them. An argument that is empty or
-- a single dash is a value like any other. A dash is the byte 45.
def read : Reading → List Bytes → Except Stop Invocation
  | reading, [] => return (← reading.settle).invocation
  | reading, [45, 45] :: rest =>
    match rest with
    | [] => return (← reading.settle).invocation
    | argument :: _ => Reading.unexpected (Utf8.display argument)
  | reading, (45 :: 45 :: body) :: rest => do read (← reading.takeLong body) rest
  | reading, (45 :: c :: body) :: rest => do read (← reading.takeShort (c :: body)) rest
  | reading, argument :: rest =>
    match reading.pending with
    | some none => read { reading with pending := some (some argument) } rest
    | _ => Reading.unexpected (Utf8.display argument)

def parse (arguments : List Bytes) : Except Stop Invocation := read {} arguments

end TokenMigration.CommandLine
