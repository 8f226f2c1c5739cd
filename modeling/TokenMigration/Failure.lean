import TokenMigration.Files.IoError
import TokenMigration.Files.Path
import TokenMigration.Json

namespace TokenMigration

inductive FileOperation where
  | read
  | write
  | list
  deriving DecidableEq, Repr

def FileOperation.name : FileOperation → String
  | .read => "read"
  | .write => "write"
  | .list => "list"

inductive ErrorCode where
  | invalidArgument
  | fileOperationFailed
  | ioError
  | jsonError
  deriving DecidableEq, Repr

def ErrorCode.name : ErrorCode → String
  | .invalidArgument => "validation.invalid_argument"
  | .fileOperationFailed => "file.operation_failed"
  | .ioError => "internal.io_error"
  | .jsonError => "internal.json_error"

-- An argument that is refused is the caller's mistake, all else is a failure of the program.
def ErrorCode.exitCode : ErrorCode → Int
  | .invalidArgument => 2
  | _ => 1

inductive Cause where
  | invalidArgument (field problem : String) (value : Option String)
  | fileOperation (path : Path) (operation : FileOperation) (reason : IoError)
  | io (reason : String) (context : Option String)
  | json (reason : String) (context : Option String)
  | other (code : ErrorCode) (message : String) (details : Json)
  deriving DecidableEq, Repr

-- Hints stand in the order in which they were given.
structure Failure where
  cause : Cause
  hints : List String := []
  deriving DecidableEq, Repr

namespace Cause

def code : Cause → ErrorCode
  | .invalidArgument .. => .invalidArgument
  | .fileOperation .. => .fileOperationFailed
  | .io .. => .ioError
  | .json .. => .jsonError
  | .other code .. => code

-- For a file this is the reason alone, so that a report line can name the path in front of it.
def message : Cause → String
  | .invalidArgument _ problem _ => problem
  | .fileOperation _ _ reason => reason.message
  | .io .. => "IO error"
  | .json .. => "JSON error"
  | .other _ message _ => message

private def internalDetails (reason : String) (context : Option String) : Json :=
  .object (Json.optionalField "context" (context.map .text) ++ [("error", .text reason)])

-- The keys of the details stand in the order of their bytes.
def details : Cause → Json
  | .invalidArgument field problem value => .object <|
      [("field", .text field), ("problem", .text problem)] ++
        Json.optionalField "value" (value.map .text)
  | .fileOperation path operation reason => .object
      [("error", .text reason.message), ("operation", .text operation.name),
        ("path", .text path.display)]
  | .io reason context => internalDetails reason context
  | .json reason context => internalDetails reason context
  | .other _ _ details => details

end Cause

namespace Failure

def new (code : ErrorCode) (message : String) (details : Json) : Failure :=
  { cause := .other code message details }

def invalidArgument (field problem : String) (value : Option String) : Failure :=
  { cause := .invalidArgument field problem value }

def fileOperation (path : Path) (operation : FileOperation) (reason : IoError) : Failure :=
  { cause := .fileOperation path operation reason }

def io (reason : String) (context : Option String) : Failure := { cause := .io reason context }

def json (reason : String) (context : Option String) : Failure := { cause := .json reason context }

def withHint (failure : Failure) (hint : String) : Failure :=
  { failure with hints := failure.hints ++ [hint] }

def code (failure : Failure) : ErrorCode := failure.cause.code

def message (failure : Failure) : String := failure.cause.message

def details (failure : Failure) : Json := failure.cause.details

def exitCode (failure : Failure) : Int := failure.code.exitCode

end Failure

end TokenMigration
