import TokenMigration.Proofs.CommandLine.Independence

namespace TokenMigration

variable {σ : Type}

namespace Sink

-- If anything is refused, then because nobody reads it any more.
def Tolerates (sink : Sink σ) : Prop :=
  ∀ written text, (sink.accept written text).1 = .ok () ∨
    (sink.accept written text).1 = .error .brokenPipe

-- Everything is refused, and for another reason.
def Fails (sink : Sink σ) : Prop :=
  ∀ written text, ∃ reason, reason ≠ .brokenPipe ∧ (sink.accept written text).1 = .error reason

end Sink

namespace Session

-- The root that has been named, or else the current directory.
def rootPath (session : Session σ) : Option Path → Except IoError Path
  | some path => .ok path
  | none => session.currentDirectory

def resolvedRoot (session : Session σ) (root : Option Path) : Except Failure Path :=
  match session.rootPath root with
  | .error reason => .error (.io reason.message (some "resolve current directory"))
  | .ok path =>
    if session.isDirectory path then .ok path else .error (Command.notADirectory path)

end Session

namespace Command

theorem resolveRoot_some_run (path : Path) (session : Session σ) :
    (resolveRoot (some path) : StateM (Session σ) _) session =
      (session.resolvedRoot (some path), session) := by
  simp only [resolveRoot, pure_bind, Session.resolvedRoot, Session.rootPath]
  simp only [bind, StateT.bind, FileAccess.isDirectory]
  cases session.isDirectory path <;> rfl

theorem resolveRoot_run (root : Option Path) (session : Session σ) :
    (resolveRoot root : StateM (Session σ) _) session = (session.resolvedRoot root, session) := by
  cases root with
  | some path => exact resolveRoot_some_run path session
  | none =>
    simp only [resolveRoot, bind, StateT.bind, FileAccess.currentDirectory,
      Session.resolvedRoot, Session.rootPath]
    cases session.currentDirectory with
    | error reason => rfl
    | ok path =>
      simp only [StateT.bind, FileAccess.isDirectory]
      cases session.isDirectory path <;> rfl

variable {root : Option Path} {session : Session σ}

-- A root that is no directory ends the command before anything has been read, written or told.
theorem run_of_rejected {failure : Failure} (h : session.resolvedRoot root = .error failure)
    (dryRun : Bool) (output : Output (StateM (Session σ))) :
    (run root dryRun output : StateM (Session σ) _) session = (.error failure, session) := by
  simp only [run, bind, StateT.bind, resolveRoot_run, h]
  rfl

theorem run_of_accepted {path : Path} (h : session.resolvedRoot root = .ok path)
    (dryRun : Bool) (output : Output (StateM (Session σ))) :
    ∃ completed next,
      (run root dryRun output : StateM (Session σ) _) session = (.ok completed, next) := by
  simp only [run, bind, StateT.bind, resolveRoot_run, h]
  exact ⟨_, _, rfl⟩

end Command

namespace CommandLine

section

-- The exit code that the root alone decides.
def rootCode : Except Failure Path → Int
  | .ok _ => 0
  | .error failure => failure.exitCode

variable (sink : Sink σ) (stderrIsTerminal : Bool) (session : Session σ)

theorem stdout_run (text : String) :
    (Session.streams sink stderrIsTerminal).stdout text session =
      ((sink.accept session.stdout text).1,
        { session with stdout := (sink.accept session.stdout text).2 }) := rfl

theorem fail_exitCode (failure : Failure) :
    (fail (Session.streams sink stderrIsTerminal) failure session).1 = failure.exitCode := by
  simp only [fail, bind, StateT.bind]
  rfl

-- An answer is written in one piece. Only if that is refused there is more to say.
theorem answer_run (envelope : Envelope) (exitCode : Int) :
    answer (Session.streams sink stderrIsTerminal) envelope exitCode session =
      let written := sink.accept session.stdout (envelope.text ++ "\n")
      match written.1 with
      | .ok () => (exitCode, { session with stdout := written.2 })
      | .error reason =>
        if reason = .brokenPipe then (exitCode, { session with stdout := written.2 })
        else fail (Session.streams sink stderrIsTerminal)
          (.io reason.message (some "write JSON envelope to stdout"))
          { session with stdout := written.2 } := by
  simp only [answer, bind, StateT.bind, stdout_run]
  cases (sink.accept session.stdout (envelope.text ++ "\n")).1 with
  | ok done => rfl
  | error reason =>
    simp only
    split <;> rfl

variable {sink} in
theorem answer_exitCode_of_tolerates (h : sink.Tolerates) (envelope : Envelope) (exitCode : Int) :
    (answer (Session.streams sink stderrIsTerminal) envelope exitCode session).1 = exitCode := by
  rw [answer_run]
  obtain hsink | hsink := h session.stdout (envelope.text ++ "\n")
  · simp only [hsink]
  · simp only [hsink, if_true]

variable {sink} in
theorem answer_exitCode_of_fails (h : sink.Fails) (envelope : Envelope) (exitCode : Int) :
    (answer (Session.streams sink stderrIsTerminal) envelope exitCode session).1 = 1 := by
  rw [answer_run]
  obtain ⟨reason, hreason, hsink⟩ := h session.stdout (envelope.text ++ "\n")
  simp only [hsink, hreason, if_false, fail_exitCode]
  rfl

theorem stdout_hints (hints : List String) :
    ((hints.forM fun hint => (Session.streams sink stderrIsTerminal).stderr s!"  hint: {hint}\n" :
      StateM (Session σ) _) session).2.stdout = session.stdout := by
  induction hints generalizing session with
  | nil => rfl
  | cons hint hints ih => exact ih _

theorem stdout_fail (failure : Failure) :
    (fail (Session.streams sink stderrIsTerminal) failure session).2.stdout = session.stdout :=
  stdout_hints sink stderrIsTerminal _ failure.hints

theorem stdout_answer (envelope : Envelope) (exitCode : Int) :
    (answer (Session.streams sink stderrIsTerminal) envelope exitCode session).2.stdout =
      (sink.accept session.stdout (envelope.text ++ "\n")).2 := by
  simp only [answer_run]
  cases (sink.accept session.stdout (envelope.text ++ "\n")).1 with
  | ok done => rfl
  | error reason =>
    simp only
    split
    · rfl
    · exact stdout_fail sink stderrIsTerminal _ _

-- Without an envelope the root alone decides the exit code, and nothing that is said later counts.
theorem execute_exitCode_lines (root : Option Path) (dryRun : Bool) :
    (execute (Session.streams sink stderrIsTerminal) ⟨root, dryRun, false⟩ session).1 =
      rootCode (session.resolvedRoot root) := by
  simp only [execute, Bool.false_eq_true, if_false, bind, StateT.bind]
  cases h : session.resolvedRoot root with
  | error failure =>
    rw [Command.run_of_rejected h]
    exact fail_exitCode sink stderrIsTerminal session failure
  | ok path =>
    obtain ⟨completed, next, hrun⟩ := Command.run_of_accepted h dryRun
      (Session.streams sink stderrIsTerminal).reporting
    rw [hrun]
    rfl

-- The envelope and its exit code belong together.
theorem execute_json_run (root : Option Path) (dryRun : Bool) :
    ∃ (envelope : Envelope) (next : Session σ),
      execute (Session.streams sink stderrIsTerminal) ⟨root, dryRun, true⟩ session =
        answer (Session.streams sink stderrIsTerminal) envelope
          (rootCode (session.resolvedRoot root)) next ∧
      ∀ failure, session.resolvedRoot root = .error failure →
        envelope = .error failure ∧ next = session := by
  simp only [execute, if_true, bind, StateT.bind]
  cases h : session.resolvedRoot root with
  | error failure =>
    rw [Command.run_of_rejected h]
    refine ⟨.error failure, session, rfl, ?_⟩
    rintro other ⟨⟩
    exact ⟨rfl, rfl⟩
  | ok path =>
    obtain ⟨completed, next, hrun⟩ := Command.run_of_accepted h dryRun
      (Session.streams sink stderrIsTerminal).silent
    rw [hrun]
    refine ⟨_, next, rfl, ?_⟩
    rintro failure ⟨⟩

variable {sink session} in
theorem execute_exitCode {invocation : Invocation}
    (h : invocation.json = false ∨ sink.Tolerates) :
    (execute (Session.streams sink stderrIsTerminal) invocation session).1 =
      rootCode (session.resolvedRoot invocation.root) := by
  obtain ⟨root, dryRun, json⟩ := invocation
  cases json with
  | false => exact execute_exitCode_lines sink stderrIsTerminal session root dryRun
  | true =>
    have hsink := h.resolve_left (by simp)
    obtain ⟨envelope, next, hrun, -⟩ := execute_json_run sink stderrIsTerminal session root dryRun
    rw [hrun, answer_exitCode_of_tolerates stderrIsTerminal next hsink]

variable {sink session} in
theorem execute_exitCode_of_fails (h : sink.Fails) {invocation : Invocation}
    (hjson : invocation.json = true) :
    (execute (Session.streams sink stderrIsTerminal) invocation session).1 = 1 := by
  obtain ⟨root, dryRun, json⟩ := invocation
  subst hjson
  obtain ⟨envelope, next, hrun, -⟩ := execute_json_run sink stderrIsTerminal session root dryRun
  rw [hrun, answer_exitCode_of_fails stderrIsTerminal next h]

-- Where the root is rejected, the standard output sees at most the envelope that says so.
theorem stdout_execute_of_rejected {invocation : Invocation} {failure : Failure}
    (h : session.resolvedRoot invocation.root = .error failure) :
    (execute (Session.streams sink stderrIsTerminal) invocation session).2.stdout =
      if invocation.json then
        (sink.accept session.stdout ((Envelope.error failure).text ++ "\n")).2
      else session.stdout := by
  obtain ⟨root, dryRun, json⟩ := invocation
  cases json with
  | false =>
    simp only [execute, Bool.false_eq_true, if_false, bind, StateT.bind,
      Command.run_of_rejected h]
    exact stdout_fail sink stderrIsTerminal session failure
  | true =>
    obtain ⟨envelope, next, hrun, henvelope⟩ :=
      execute_json_run sink stderrIsTerminal session root dryRun
    obtain ⟨rfl, rfl⟩ := henvelope failure h
    rw [hrun]
    exact stdout_answer sink stderrIsTerminal next _ _

theorem exitStatus_rootCode (root : Option Path) :
    exitStatus (rootCode (session.resolvedRoot root)) =
      match session.rootPath root with
      | .error _ => 1
      | .ok path => if session.isDirectory path then 0 else 2 := by
  simp only [Session.resolvedRoot]
  cases session.rootPath root with
  | error reason => rfl
  | ok path =>
    simp only
    cases session.isDirectory path <;> rfl

variable {session} in
theorem resolvedRoot_of_no_directory {root : Option Path}
    (h : ∀ path, session.rootPath root = .ok path → session.isDirectory path = false) :
    ∃ failure, session.resolvedRoot root = .error failure := by
  simp only [Session.resolvedRoot]
  cases hpath : session.rootPath root with
  | error reason => exact ⟨_, rfl⟩
  | ok path =>
    simp only [h path hpath, Bool.false_eq_true, if_false]
    exact ⟨_, rfl⟩

end

-- The status the program ends with. What became of the files has no part in it: the root decides,
-- unless there is an envelope and it cannot be written. Without a root that is a directory nothing
-- is done to the files, and the standard output gets no report.
theorem run_exitStatus (sink : Sink σ) (stderrIsTerminal : Bool) (session : Session σ)
    {arguments : List Bytes} {invocation : Invocation}
    (hparse : parse arguments = .ok invocation) :
    let run := CommandLine.run (Session.streams sink stderrIsTerminal) arguments session
    let root := invocation.root
    (invocation.json = false ∨ sink.Tolerates →
      (exitStatus run.1 = 1 ↔ root = none ∧ ∃ reason, session.currentDirectory = .error reason) ∧
      (exitStatus run.1 = 2 ↔
        ∃ path, session.rootPath root = .ok path ∧ session.isDirectory path = false) ∧
      (exitStatus run.1 = 0 ↔
        ∃ path, session.rootPath root = .ok path ∧ session.isDirectory path = true)) ∧
    (invocation.json = true → sink.Fails → exitStatus run.1 = 1) ∧
    ((∀ path, session.rootPath root = .ok path → session.isDirectory path = false) →
      run.2.SameFiles session ∧
      (∀ output : Output (StateM (Session σ)),
        ((Command.run root invocation.dryRun output : StateM (Session σ) _) session).2 =
          session) ∧
      ∃ failure : Failure, run.2.stdout =
        if invocation.json then
          (sink.accept session.stdout ((Envelope.error failure).text ++ "\n")).2
        else session.stdout) := by
  intro run root
  have hrun : run = execute (Session.streams sink stderrIsTerminal) invocation session := by
    simp only [run, CommandLine.run, hparse]
  refine ⟨fun hsink => ?_, fun hjson hsink => ?_, fun hroot => ?_⟩
  · have hstatus : exitStatus run.1 = exitStatus (rootCode (session.resolvedRoot root)) := by
      rw [hrun, execute_exitCode stderrIsTerminal hsink]
    rw [hstatus, exitStatus_rootCode]
    cases hnamed : root with
    | some path =>
      simp only [Session.rootPath]
      cases hdirectory : session.isDirectory path <;> simp [hdirectory]
    | none =>
      simp only [Session.rootPath]
      cases hcurrent : session.currentDirectory with
      | error reason => simp
      | ok path => cases hdirectory : session.isDirectory path <;> simp [hdirectory]
  · rw [hrun, execute_exitCode_of_fails stderrIsTerminal hsink hjson]
    rfl
  · obtain ⟨failure, hfailure⟩ := resolvedRoot_of_no_directory hroot
    have hcommand := fun output : Output (StateM (Session σ)) =>
      congrArg Prod.snd (Command.run_of_rejected hfailure invocation.dryRun output)
    rw [hrun]
    refine ⟨?_, hcommand, failure, ?_⟩
    · have hfiles := execute_sameFiles sink stderrIsTerminal invocation session
      rw [hcommand] at hfiles
      exact hfiles
    · exact stdout_execute_of_rejected sink stderrIsTerminal session hfailure

-- A project whose device is full: with an envelope the program fails although the file has been
-- migrated, and a root that is missing has a status of its own. In a directory that has been
-- removed there is no root at all.
theorem run_exitStatus_full_device :
    let top : Node := .directory .all [(Utf8.encode "src", 1)]
    let sources : Node := .directory .all [(Utf8.encode "api", 2)]
    let api : Node := .directory .all [(Utf8.encode "handlers_legacy.rs", 3)]
    let file : Node := .file .all (Utf8.encode "state.tax_service")
    let session : Session String := ⟨⟨[top, sources, api, file]⟩, [], "", "", []⟩
    let removed : Session String :=
      ⟨⟨[.directory .all [], .directory .all []]⟩, [(Utf8.encode "old", 1)], "", "", []⟩
    let full := Session.streams (Sink.refusing .deviceFull) false
    let collecting := Session.streams Sink.collecting false
    let enveloped := ["--root", ".", "--json"].map Utf8.encode
    let missing := ["--root", "absent"].map Utf8.encode
    let nowhere := ["--json"].map Utf8.encode
    exitStatus (CommandLine.run full enveloped session).1 = 1 ∧
      (CommandLine.run full enveloped session).2.tree =
        ⟨[top, sources, api, .file .all (Utf8.encode "state.commerce.taxes")]⟩ ∧
      exitStatus (CommandLine.run full missing session).1 = 2 ∧
      (CommandLine.run full missing session).2.SameFiles session ∧
      exitStatus (CommandLine.run collecting nowhere removed).1 = 1 := by
  intro top sources api file session removed full collecting enveloped missing nowhere
  have hfull : (Sink.refusing .deviceFull).Fails :=
    fun _ _ => ⟨.deviceFull, by decide, rfl⟩
  have hcollecting : Sink.collecting.Tolerates := fun _ _ => .inl rfl
  have habsent : session.isDirectory (.ofString "absent") = false := by decide +kernel
  have hparse : parse enveloped = .ok ⟨some (.ofString "."), false, true⟩ := rfl
  have hparse' : parse missing = .ok ⟨some (.ofString "absent"), false, false⟩ := rfl
  have hparse'' : parse nowhere = .ok ⟨none, false, true⟩ := rfl
  obtain ⟨-, henveloped, -⟩ := run_exitStatus (Sink.refusing .deviceFull) false session hparse
  obtain ⟨hmissing, -, hrejected⟩ :=
    run_exitStatus (Sink.refusing .deviceFull) false session hparse'
  obtain ⟨hnowhere, -, -⟩ := run_exitStatus Sink.collecting false removed hparse''
  refine ⟨henveloped rfl hfull, by decide +kernel, ?_, ?_, ?_⟩
  · exact (hmissing (.inl rfl)).2.1.mpr ⟨_, rfl, habsent⟩
  · refine (hrejected ?_).1
    rintro path ⟨⟩
    exact habsent
  · exact (hnowhere (.inr hcollecting)).1.mpr ⟨rfl, _, rfl⟩

end CommandLine

end TokenMigration
