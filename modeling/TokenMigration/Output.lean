import TokenMigration.Files.IoError

namespace TokenMigration

-- Where a migration tells what it does. The report may be refused line by line, a note is not.
structure Output (m : Type → Type) where
  report : String → m (Except IoError Unit)
  note : String → m Unit

-- Where a program writes. Only a terminal shows notes.
structure Streams (m : Type → Type) where
  stdout : String → m (Except IoError Unit)
  stderr : String → m Unit
  stderrIsTerminal : Bool

variable {m : Type → Type} [Monad m]

-- A line that is refused is lost and nothing else. The reason is noted, unless it is that nobody
-- reads the report any more.
def Output.line (output : Output m) (text : String) : m Unit := do
  match ← output.report (text ++ "\n") with
  | .ok () => pure ()
  | .error reason =>
    if reason = .brokenPipe then pure ()
    else output.note s!"Failed to write report line: {reason.message}"

namespace Streams

def note (streams : Streams m) (text : String) : m Unit :=
  if streams.stderrIsTerminal then streams.stderr s!"[rewrite] {text}\n" else pure ()

def reporting (streams : Streams m) : Output m := ⟨streams.stdout, streams.note⟩

def silent (streams : Streams m) : Output m := ⟨fun _ => pure (.ok ()), streams.note⟩

end Streams

end TokenMigration
