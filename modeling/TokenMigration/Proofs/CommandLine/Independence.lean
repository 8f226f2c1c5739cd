import TokenMigration.CommandLine.Program
import TokenMigration.Proofs.Migration.FinalTree

namespace TokenMigration

variable {σ τ : Type} {α β : Type}

namespace Session

namespace SameFiles

variable {session : Session σ} {other : Session τ} (h : session.SameFiles other)

include h

theorem list (path : Path) : session.list path = other.list path := by
  rw [Session.list, Session.list, h.tree, h.current]

theorem targets (layout : Layout) : session.targets layout = other.targets layout := by
  simp only [Session.targets, h.list]

theorem opening (layout : Layout) (dryRun : Bool) :
    session.opening layout dryRun = other.opening layout dryRun := by
  simp only [Session.opening, h.list]

end SameFiles

end Session

-- The action changes nothing but what has been written to the streams.
def KeepsFiles (action : StateM (Session σ) α) : Prop :=
  ∀ session, (action session).2.SameFiles session

namespace KeepsFiles

theorem pure (a : α) : KeepsFiles (Pure.pure a : StateM (Session σ) α) :=
  fun session => .refl session

theorem bind {action : StateM (Session σ) α} {next : α → StateM (Session σ) β}
    (h : KeepsFiles action) (hnext : ∀ a, KeepsFiles (next a)) : KeepsFiles (action >>= next) :=
  fun session => (hnext _ _).trans (h session)

theorem forM {action : α → StateM (Session σ) PUnit} (h : ∀ a, KeepsFiles (action a))
    (list : List α) : KeepsFiles (list.forM action) := by
  induction list with
  | nil => exact pure _
  | cons a list ih => exact (h a).bind fun _ => ih

end KeepsFiles

-- Two actions that give the same and leave the same files, whatever else their sessions hold.
def Alike (action : StateM (Session σ) α) (other : StateM (Session τ) α) : Prop :=
  ∀ ⦃session : Session σ⦄ ⦃session' : Session τ⦄, session.SameFiles session' →
    (action session).1 = (other session').1 ∧ (action session).2.SameFiles (other session').2

namespace Alike

theorem pure (a : α) :
    Alike (Pure.pure a : StateM (Session σ) α) (Pure.pure a : StateM (Session τ) α) :=
  fun _ _ h => ⟨rfl, h⟩

theorem bind {action : StateM (Session σ) α} {other : StateM (Session τ) α}
    {next : α → StateM (Session σ) β} {next' : α → StateM (Session τ) β} (h : Alike action other)
    (hnext : ∀ a, Alike (next a) (next' a)) : Alike (action >>= next) (other >>= next') := by
  intro session session' hs
  have hstep := h hs
  simp only [Bind.bind, StateT.bind]
  rcases haction : action session with ⟨a, next⟩
  rcases hother : other session' with ⟨a', next'⟩
  rw [haction, hother] at hstep
  obtain ⟨rfl, hfiles⟩ := hstep
  exact hnext a hfiles

theorem of_keepsFiles {action : StateM (Session σ) Unit} {other : StateM (Session τ) Unit}
    (h : KeepsFiles action) (h' : KeepsFiles other) : Alike action other :=
  fun _ _ hs => ⟨rfl, (h _).trans (hs.trans (h' _).symm)⟩

end Alike

theorem migrate_alike {output : Output (StateM (Session σ))} {output' : Output (StateM (Session τ))}
    (hq : output.Quiet) (hq' : output'.Quiet) (layout : Layout) (table : Table) (dryRun : Bool) :
    Alike (migrate layout table dryRun output) (migrate layout table dryRun output') := by
  intro session session' h
  constructor
  · rw [migrate_summary hq, migrate_summary hq', h.opening, h.targets, h.outcomes]
  · have hfirst := migrate_triedAll hq table layout dryRun session
    have hsecond := migrate_triedAll hq' table layout dryRun session'
    rw [h.targets] at hfirst
    exact (hfirst.trans (h.triedAll table dryRun _)).trans hsecond.symm

namespace Command

theorem currentDirectory_alike :
    Alike (FileAccess.currentDirectory : StateM (Session σ) (Except IoError Path))
      (FileAccess.currentDirectory : StateM (Session τ) (Except IoError Path)) := by
  intro session session' h
  refine ⟨?_, h⟩
  simp only [FileAccess.currentDirectory, Session.currentDirectory, h.tree, h.current]

theorem isDirectory_alike (path : Path) :
    Alike (FileAccess.isDirectory path : StateM (Session σ) Bool)
      (FileAccess.isDirectory path : StateM (Session τ) Bool) := by
  intro session session' h
  refine ⟨?_, h⟩
  simp only [FileAccess.isDirectory, Session.isDirectory, h.tree, h.current]

theorem resolveRoot_some_alike (path : Path) :
    Alike (resolveRoot (some path) : StateM (Session σ) (Except Failure Path))
      (resolveRoot (some path) : StateM (Session τ) (Except Failure Path)) := by
  have hresolved : Alike (pure (.ok path) : StateM (Session σ) (Except IoError Path))
      (pure (.ok path) : StateM (Session τ) (Except IoError Path)) := .pure _
  refine hresolved.bind fun resolved => ?_
  cases resolved with
  | error reason => exact .pure _
  | ok path =>
    refine (isDirectory_alike path).bind fun answer => ?_
    cases answer <;> exact .pure _

-- The current directory is checked as a root that has been named.
theorem resolveRoot_alike (root : Option Path) :
    Alike (resolveRoot root : StateM (Session σ) (Except Failure Path))
      (resolveRoot root : StateM (Session τ) (Except Failure Path)) := by
  cases root with
  | some path => exact resolveRoot_some_alike path
  | none =>
    refine currentDirectory_alike.bind fun resolved => ?_
    cases resolved with
    | error reason => exact .pure _
    | ok path => exact resolveRoot_some_alike path

theorem run_alike {output : Output (StateM (Session σ))} {output' : Output (StateM (Session τ))}
    (hq : output.Quiet) (hq' : output'.Quiet) (root : Option Path) (dryRun : Bool) :
    Alike (run root dryRun output) (run root dryRun output') := by
  have hnote := fun text => Alike.of_keepsFiles (hq.note text) (hq'.note text)
  refine (resolveRoot_alike root).bind fun resolved => ?_
  cases resolved with
  | error failure => exact .pure _
  | ok path =>
    refine (hnote _).bind fun _ => ?_
    refine (migrate_alike hq hq' (.handlers path) .stateGroups dryRun).bind fun summary => ?_
    exact (hnote _).bind fun _ => .pure _

end Command

namespace CommandLine

variable (sink : Sink σ) (stderrIsTerminal : Bool)

theorem silent_quiet : (Session.streams sink stderrIsTerminal).silent.Quiet where
  report _ session := .refl session
  note := (Session.reporting_quiet sink stderrIsTerminal).note

theorem stdout_keepsFiles (text : String) :
    KeepsFiles ((Session.streams sink stderrIsTerminal).stdout text) :=
  (Session.reporting_quiet sink stderrIsTerminal).report text

theorem stderr_keepsFiles (text : String) :
    KeepsFiles ((Session.streams sink stderrIsTerminal).stderr text) :=
  fun _ => ⟨rfl, rfl, rfl⟩

theorem fail_keepsFiles (failure : Failure) :
    KeepsFiles (fail (Session.streams sink stderrIsTerminal) failure) :=
  (stderr_keepsFiles sink stderrIsTerminal _).bind fun _ =>
    (KeepsFiles.forM (fun _ => stderr_keepsFiles sink stderrIsTerminal _) failure.hints).bind
      fun _ => .pure _

theorem answer_keepsFiles (envelope : Envelope) (exitCode : Int) :
    KeepsFiles (answer (Session.streams sink stderrIsTerminal) envelope exitCode) := by
  refine (stdout_keepsFiles sink stderrIsTerminal _).bind fun result => ?_
  cases result with
  | ok done => exact .pure _
  | error reason =>
    simp only
    split
    · exact .pure _
    · exact fail_keepsFiles sink stderrIsTerminal _

-- Either answer comes when the files are as the command with a report leaves them.
theorem execute_sameFiles (invocation : Invocation) (session : Session σ) :
    (execute (Session.streams sink stderrIsTerminal) invocation session).2.SameFiles
      ((Command.run invocation.root invocation.dryRun
        (Session.streams sink stderrIsTerminal).reporting : StateM (Session σ) _) session).2 := by
  have hreporting := Session.reporting_quiet sink stderrIsTerminal
  obtain ⟨root, dryRun, json⟩ := invocation
  cases json with
  | true =>
    have hsilent := silent_quiet sink stderrIsTerminal
    have hcommand := Command.run_alike hsilent hreporting root dryRun (.refl session)
    exact (answer_keepsFiles sink stderrIsTerminal _ _ _).trans hcommand.2
  | false =>
    simp only [execute, Bool.false_eq_true, if_false, bind, StateT.bind]
    rcases (Command.run root dryRun (Session.streams sink stderrIsTerminal).reporting :
      StateM (Session σ) _) session with ⟨result, next⟩
    cases result with
    | ok completed => exact .refl next
    | error failure => exact fail_keepsFiles sink stderrIsTerminal failure next

end CommandLine

-- What becomes of the output makes no difference to a migration: not to its summary, and not to
-- the files that the program leaves, with either kind of answer.
theorem migration_independent_of_output (sink : Sink σ) (sink' : Sink τ)
    (stderrIsTerminal stderrIsTerminal' : Bool) {session : Session σ} {session' : Session τ}
    (h : session.SameFiles session') :
    (∀ (layout : Layout) (table : Table) (dryRun : Bool),
      let run := (migrate layout table dryRun
        (Session.streams sink stderrIsTerminal).reporting : StateM (Session σ) _) session
      let run' := (migrate layout table dryRun
        (Session.streams sink' stderrIsTerminal').reporting : StateM (Session τ) _) session'
      run.1 = run'.1 ∧ run.2.SameFiles run'.2) ∧
    ∀ (arguments arguments' : List Bytes) (root : Option Path) (dryRun json json' : Bool),
      CommandLine.parse arguments = .ok ⟨root, dryRun, json⟩ →
      CommandLine.parse arguments' = .ok ⟨root, dryRun, json'⟩ →
      (CommandLine.run (Session.streams sink stderrIsTerminal) arguments session).2.SameFiles
        (CommandLine.run (Session.streams sink' stderrIsTerminal') arguments' session').2 := by
  have hq := Session.reporting_quiet sink stderrIsTerminal
  have hq' := Session.reporting_quiet sink' stderrIsTerminal'
  refine ⟨fun layout table dryRun => migrate_alike hq hq' layout table dryRun h, ?_⟩
  intro arguments arguments' root dryRun json json' hparse hparse'
  simp only [CommandLine.run, hparse, hparse']
  have hcommand := (Command.run_alike hq hq' root dryRun h).2
  exact ((CommandLine.execute_sameFiles sink stderrIsTerminal _ session).trans hcommand).trans
    (CommandLine.execute_sameFiles sink' stderrIsTerminal' _ session').symm

-- A project with the one file src/api/handlers_legacy.rs and no directory of handlers. The report
-- goes to a full device, and the answer in the other form is taken.
theorem migration_independent_of_output_full_device :
    let top : Node := .directory .all [(Utf8.encode "src", 1)]
    let sources : Node := .directory .all [(Utf8.encode "api", 2)]
    let api : Node := .directory .all [(Utf8.encode "handlers_legacy.rs", 3)]
    let file : Node := .file .all (Utf8.encode "state.tax_service")
    let session : Session String := ⟨⟨[top, sources, api, file]⟩, [], "", "", []⟩
    let refusing := Session.streams (Sink.refusing .deviceFull) true
    let collecting := Session.streams Sink.collecting false
    let arguments := ["--root", "."].map Utf8.encode
    let answering := arguments ++ [Utf8.encode "--json"]
    (CommandLine.run refusing arguments session).2.SameFiles
        (CommandLine.run collecting answering session).2 ∧
      (CommandLine.run refusing arguments session).2.tree =
        ⟨[top, sources, api, .file .all (Utf8.encode "state.commerce.taxes")]⟩ ∧
      ((migrate (.handlers ⟨[46]⟩) .stateGroups true refusing.reporting :
        StateM (Session String) _) session).1.items =
          [⟨"./src/api/handlers",
              .failed "No such file or directory (os error 2)" .fileOperationFailed⟩,
            ⟨"./src/api/handlers_legacy.rs", .wouldUpdate 1⟩] := by
  intro top sources api file session refusing collecting arguments answering
  obtain ⟨hmigrate, hrun⟩ := migration_independent_of_output (Sink.refusing .deviceFull)
    Sink.collecting true false (.refl session)
  refine ⟨?_, ?_, ?_⟩
  · exact hrun arguments answering (some ⟨[46]⟩) false false true rfl rfl
  · decide +kernel
  · have hsummary := (hmigrate (.handlers ⟨[46]⟩) .stateGroups true).1
    have hitems := congrArg Summary.items hsummary
    rw [hitems]
    decide +kernel

end TokenMigration
