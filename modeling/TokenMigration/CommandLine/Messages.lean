import TokenMigration.CommandLine.Arguments
import TokenMigration.Text.ControlSequence

namespace TokenMigration.CommandLine

def programName : String := "state-rewrite"

def versionText : String := s!"{programName} 0.1.0\n"

namespace Usage

def shown : Usage → List String
  | .anyOptions => ["[OPTIONS]"]
  | .listing arguments => arguments.map Argument.shown
  | .grouping arguments =>
    (arguments.filter (!·.isGrouped)).map Argument.shown ++ [Argument.group]

def line (usage : Usage) : String := s!"Usage: {programName} " ++ " ".intercalate usage.shown

end Usage

def helpText : String :=
  "Migrate handler sources from flat state services to grouped state accessors\n\n" ++
  Usage.line .anyOptions ++ "\n\n" ++
  "Options:\n" ++
  "      --root <DIR>  Project root holding src/api/handlers (default: current directory)\n" ++
  "      --dry-run     Report what would change without writing files\n" ++
  "      --json        Print a JSON summary instead of the per-file report\n" ++
  "  -h, --help        Print help\n" ++
  "  -V, --version     Print version\n"

namespace Misuse

-- What comes from the caller is quoted without the control sequences in it.
def problem : Misuse → String
  | .unexpectedArgument shown _ => s!"unexpected argument '{ControlSequence.remove shown}' found"
  | .unexpectedValue shown argument _ =>
    s!"unexpected value '{ControlSequence.remove shown}' for '{argument.shown}' found; " ++
      "no more were expected"
  | .missingValue argument =>
    s!"a value is required for '{argument.shown}' but none was supplied"
  | .repeated argument => s!"the argument '{argument.shown}' cannot be used multiple times"

-- A value that is missing is no matter of usage.
def usage? : Misuse → Option Usage
  | .unexpectedArgument _ usage => some usage
  | .unexpectedValue _ _ usage => some usage
  | .missingValue _ => none
  | .repeated _ => some .anyOptions

def text (misuse : Misuse) : String :=
  s!"error: {misuse.problem}\n\n" ++
    ((misuse.usage?.map fun usage => usage.line ++ "\n\n").getD "") ++
    "For more information, try '--help'.\n"

end Misuse

end TokenMigration.CommandLine
