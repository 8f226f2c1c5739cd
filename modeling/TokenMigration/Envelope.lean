import TokenMigration.Failure
import TokenMigration.Json.Fault
import TokenMigration.Json.Printer

namespace TokenMigration

-- A value on its way into a response. One that has no form as JSON says why.
abbrev Payload := Except String Json

inductive Envelope where
  | success (data : Json)
  | error (failure : Failure)
  deriving Repr

namespace Envelope

-- A place that the reason ends with is given in its own form, and left out if it is none.
def unwritable (reason : String) : Failure :=
  .json (Json.Fault.ofText reason).text (some "serialize response")

def errorFields (failure : Failure) : List (String × Json) :=
  [("code", .text failure.code.name),
    ("message", .text failure.message),
    ("details", failure.details)] ++
    if failure.hints.isEmpty then []
    else [("hints", .array (failure.hints.map fun hint => .object [("message", .text hint)]))]

def toJson : Envelope → Json
  | .success data => .object [("success", .bool true), ("data", data)]
  | .error failure => .object [("success", .bool false), ("error", .object (errorFields failure))]

def text (envelope : Envelope) : String := envelope.toJson.pretty

-- The data as they are, without the keys put in order.
def textOf : Payload → Except Failure String
  | .ok data => .ok (Envelope.success data).text
  | .error reason => .error (unwritable reason)

-- A response carries its own exit code, unless it cannot be given.
def ofResult : Except Failure (Payload × Int) → Envelope × Int
  | .ok (.ok data, exitCode) => (.success data.sortKeys, exitCode)
  | .ok (.error reason, _) => (.error (unwritable reason), 1)
  | .error failure => (.error failure, failure.exitCode)

end Envelope

end TokenMigration
