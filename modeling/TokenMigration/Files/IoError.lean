import TokenMigration.Files.SystemError

namespace TokenMigration

inductive IoError where
  | system (number : Int)
  | nulInPath
  | malformedText
  | other (description : String)
  deriving DecidableEq, Repr, Inhabited

namespace IoError

abbrev notFound : IoError := .system 2
abbrev permissionDenied : IoError := .system 13
abbrev notADirectory : IoError := .system 20
abbrev isADirectory : IoError := .system 21
abbrev deviceFull : IoError := .system 28
abbrev brokenPipe : IoError := .system 32
abbrev nameTooLong : IoError := .system 36
abbrev tooManyLinks : IoError := .system 40

def message : IoError → String
  | .system number => s!"{SystemError.describe number} (os error {number})"
  | .nulInPath => "file name contained an unexpected NUL byte"
  | .malformedText => "stream did not contain valid UTF-8"
  | .other description => description

end IoError

end TokenMigration
