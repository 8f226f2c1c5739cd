import TokenMigration.Proofs.Migration.FinalTree

namespace TokenMigration

variable {σ : Type}

-- The lines of the report on an item.
def Item.lines (item : Item) : List String :=
  match item.status with
  | .updated _ => [s!"Processing {item.path}...", s!"Updated {item.path}"]
  | .wouldUpdate _ => [s!"Processing {item.path}...", s!"Would update {item.path}"]
  | .unchanged => [s!"Processing {item.path}...", s!"No changes in {item.path}"]
  | .notFound => [s!"File not found: {item.path}"]
  | .failed message _ =>
    [s!"Processing {item.path}...", s!"Error processing {item.path}: {message}"]

-- A change is only announced by a dry run and only made by another one.
def Status.fits (dryRun : Bool) : Status → Bool
  | .updated _ => !dryRun
  | .wouldUpdate _ => dryRun
  | _ => true

theorem Outcome.fits_status (outcome : Outcome) (dryRun : Bool) :
    (outcome.status dryRun).fits dryRun = true := by
  cases outcome <;> cases dryRun <;> rfl

def linesText (lines : List String) : String := String.join (lines.map fun line => line ++ "\n")

theorem linesText_cons (line : String) (lines : List String) :
    linesText (line :: lines) = line ++ "\n" ++ linesText lines := by
  simp [linesText]

theorem linesText_append (first last : List String) :
    linesText (first ++ last) = linesText first ++ linesText last := by
  simp [linesText]

-- The last line on a target that has been processed.
def resultLine (path : Path) : Except Failure Change → String
  | .ok change => change.line path
  | .error failure => failure.line path

theorem lines_of_result (table : Table) (dryRun : Bool) (path : Path) {session : Session σ}
    (hp : session.isPresent path = true) :
    ((session.outcome table dryRun path).item dryRun path).lines =
      [s!"Processing {path.display}...", resultLine path
        ((rewriteFile table dryRun path : StateM (Session σ) _) session).1] := by
  rw [Session.outcome, if_pos hp, rewriteFile_result]
  cases (session.read path).bind table.revise with
  | error reason => rfl
  | ok change =>
    cases change with
    | none => rfl
    | some rewrite =>
      cases dryRun with
      | true => rfl
      | false => cases session.tree.openForWriting session.current path <;> rfl

theorem visit_present (table : Table) (dryRun : Bool) (output : Output (StateM (Session σ)))
    (path : Path) {session : Session σ} (hp : session.isPresent path = true) :
    let started := (output.line s!"Processing {path.display}..." session).2
    ((visit table dryRun output path : StateM (Session σ) _) session).2 =
      (output.line (resultLine path
        ((rewriteFile table dryRun path : StateM (Session σ) _) started).1)
        (started.tried table dryRun path)).2 := by
  intro started
  rw [visit_run, if_pos hp]
  simp only [Session.tried]
  cases ((rewriteFile table dryRun path : StateM (Session σ) _) started).1 <;> rfl

namespace Session

theorem stdout_tried (session : Session σ) (table : Table) (dryRun : Bool) (path : Path) :
    (session.tried table dryRun path).stdout = session.stdout := by
  rw [tried, rewriteFile_run]
  cases (session.read path).bind table.revise with
  | error reason => rfl
  | ok change =>
    cases change with
    | none => rfl
    | some rewrite =>
      simp only [overwrite]
      cases dryRun <;> cases session.tree.openForWriting session.current path <;> rfl

theorem stdout_note (sink : Sink σ) (stderrIsTerminal : Bool) (text : String)
    (session : Session σ) :
    ((streams sink stderrIsTerminal).reporting.note text session).2.stdout = session.stdout := by
  cases stderrIsTerminal <;> rfl

end Session

section Collecting

variable (stderrIsTerminal : Bool) (table : Table) (dryRun : Bool)

theorem stdout_line (text : String) (session : Session String) :
    ((Session.streams Sink.collecting stderrIsTerminal).reporting.line text session).2.stdout =
      session.stdout ++ linesText [text] := by
  simp [linesText]
  rfl

theorem stdout_visit (path : Path) (session : Session String) :
    ((visit table dryRun (Session.streams Sink.collecting stderrIsTerminal).reporting path :
        StateM (Session String) _) session).2.stdout =
      session.stdout ++ linesText ((session.outcome table dryRun path).item dryRun path).lines := by
  have hq := Session.reporting_quiet Sink.collecting stderrIsTerminal
  cases hp : session.isPresent path with
  | false =>
    rw [visit_run, Session.outcome, hp]
    exact stdout_line stderrIsTerminal _ session
  | true =>
    rw [lines_of_result table dryRun path hp, linesText_cons, ← String.append_assoc]
    have hresult := ((hq.line s!"Processing {path.display}..." session).sameAt path).result
      table dryRun
    rw [visit_present table dryRun _ path hp, stdout_line, Session.stdout_tried, stdout_line,
      hresult]
    simp [linesText, String.append_assoc]

theorem stdout_visitAll (targets : List Path) (summary : Summary) (session : Session String) :
    (visitAll table dryRun (Session.streams Sink.collecting stderrIsTerminal).reporting targets
        summary session).2.stdout =
      session.stdout ++ linesText ((session.outcomes table dryRun targets).flatMap fun record =>
        (record.2.item dryRun record.1).lines) := by
  have hq := Session.reporting_quiet Sink.collecting stderrIsTerminal
  induction targets generalizing summary session with
  | nil => exact String.append_empty.symm
  | cons path targets ih =>
    rw [visitAll_cons]
    simp only [ih, (visit_tried table dryRun hq path session).outcomes, stdout_visit,
      Session.outcomes, List.flatMap_cons, linesText_append, String.append_assoc]

theorem stdout_migrate (layout : Layout) (session : Session String) :
    ((migrate layout table dryRun (Session.streams Sink.collecting stderrIsTerminal).reporting :
        StateM (Session String) _) session).2.stdout =
      session.stdout ++
        (match session.list layout.directory with
          | .ok _ => ""
          | .error reason =>
            linesText [s!"Error processing {layout.directory.display}: {reason.message}"]) ++
        linesText ((session.outcomes table dryRun (session.targets layout)).flatMap fun record =>
          (record.2.item dryRun record.1).lines) := by
  have hq := Session.reporting_quiet Sink.collecting stderrIsTerminal
  rw [migrate_eq_visitAll, stdout_visitAll, (announced_sameFiles hq table layout session).outcomes,
    Session.announced, Session.stdout_note]
  cases session.list layout.directory with
  | ok names => rw [String.append_empty]
  | error reason => rw [stdout_line]; rfl

end Collecting

-- The report tells of the items one by one, in the order of the targets. What stands in front of
-- them, in both, is that the directory could not be listed.
theorem migrate_report (stderrIsTerminal : Bool) (layout : Layout) (table : Table) (dryRun : Bool)
    (session : Session String) :
    let run := (migrate layout table dryRun
      (Session.streams Sink.collecting stderrIsTerminal).reporting :
        StateM (Session String) _) session
    ∃ items : List Item,
      items.map Item.path = (session.targets layout).map Path.display ∧
      items.all (fun item => item.status.fits dryRun) = true ∧
      match session.list layout.directory with
      | .ok names =>
        session.targets layout = layout.targets names ∧ run.1.items = items ∧
          run.2.stdout = session.stdout ++ linesText (items.flatMap Item.lines)
      | .error reason =>
        session.targets layout = layout.extraPaths ∧
          run.1.items =
            ⟨layout.directory.display, .failed reason.message .fileOperationFailed⟩ :: items ∧
          run.2.stdout = session.stdout ++ linesText
            (s!"Error processing {layout.directory.display}: {reason.message}" ::
              items.flatMap Item.lines) := by
  have hq := Session.reporting_quiet Sink.collecting stderrIsTerminal
  intro run
  have hitems := migrate_items hq table layout dryRun session
  have hstdout := stdout_migrate stderrIsTerminal table dryRun layout session
  rw [Session.items_opening] at hitems
  refine ⟨(session.outcomes table dryRun (session.targets layout)).map fun record =>
    record.2.item dryRun record.1, Session.map_path_outcomes table dryRun session _, ?_, ?_⟩
  · simp [List.all_eq_true, Outcome.item, Outcome.fits_status]
  · rw [List.flatMap_map]
    cases hlist : session.list layout.directory with
    | ok names =>
      simp only [hlist, List.nil_append, String.append_empty] at hitems hstdout
      exact ⟨Session.targets_of_list hlist, hitems, hstdout⟩
    | error reason =>
      simp only [hlist, List.singleton_append] at hitems hstdout
      refine ⟨by simp only [Session.targets, hlist], hitems, hstdout.trans ?_⟩
      rw [linesText_cons]
      simp [linesText, String.append_assoc]

end TokenMigration
