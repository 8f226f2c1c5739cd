import TokenMigration.Proofs.Migration.RewriteFile

namespace TokenMigration

variable {σ τ : Type}

namespace Session

structure SameFiles (session : Session σ) (other : Session τ) : Prop where
  tree : session.tree = other.tree
  current : session.current = other.current
  overwritten : session.overwritten = other.overwritten

theorem SameFiles.refl (session : Session σ) : session.SameFiles session := ⟨rfl, rfl, rfl⟩

theorem SameFiles.symm {session : Session σ} {other : Session τ} (h : SameFiles session other) :
    SameFiles other session :=
  ⟨h.tree.symm, h.current.symm, h.overwritten.symm⟩

theorem SameFiles.trans {ρ : Type} {session : Session σ} {other : Session τ} {last : Session ρ}
    (h : SameFiles session other) (h' : SameFiles other last) : SameFiles session last :=
  ⟨h.tree.trans h'.tree, h.current.trans h'.current, h.overwritten.trans h'.overwritten⟩

theorem SameFiles.hits {session : Session σ} {other : Session τ} (h : SameFiles session other)
    (paths : List Path) : session.hits paths = other.hits paths := by
  funext id
  simp only [Session.hits, Session.leadsTo, h.tree, h.current]

end Session

-- An output that leaves the files alone.
structure Output.Quiet (output : Output (StateM (Session σ))) : Prop where
  report : ∀ text session, (output.report text session).2.SameFiles session
  note : ∀ text session, (output.note text session).2.SameFiles session

namespace Output.Quiet

variable {output : Output (StateM (Session σ))} (hq : output.Quiet)

include hq

theorem line (text : String) (session : Session σ) :
    (output.line text session).2.SameFiles session := by
  have hr := hq.report (text ++ "\n") session
  simp only [Output.line, bind, StateT.bind]
  rcases hreport : output.report (text ++ "\n") session with ⟨result, next⟩
  rw [hreport] at hr
  cases result with
  | ok done => exact hr
  | error reason =>
    simp only
    split
    · exact hr
    · exact (hq.note _ next).trans hr

end Output.Quiet

namespace Session

theorem reporting_quiet (sink : Sink σ) (stderrIsTerminal : Bool) :
    (Session.streams sink stderrIsTerminal).reporting.Quiet where
  report _ _ := ⟨rfl, rfl, rfl⟩
  note _ _ := by cases stderrIsTerminal <;> exact ⟨rfl, rfl, rfl⟩

end Session

variable (table : Table) (dryRun : Bool) (output : Output (StateM (Session σ))) (path : Path)

theorem visit_run (session : Session σ) :
    (visit table dryRun output path : StateM (Session σ) _) session =
      if session.isPresent path then
        let started := (output.line s!"Processing {path.display}..." session).2
        let tried := (rewriteFile table dryRun path : StateM (Session σ) _) started
        match tried.1 with
        | .ok change => (change.outcome, (output.line (change.line path) tried.2).2)
        | .error failure => (.failed failure, (output.line (failure.line path) tried.2).2)
      else (.notFound, (output.line s!"File not found: {path.display}" session).2) := by
  simp only [visit, bind, StateT.bind, FileAccess.isPresent]
  cases session.isPresent path with
  | false => rfl
  | true =>
    simp only [if_true, bind, StateT.bind]
    rcases output.line s!"Processing {path.display}..." session with ⟨_, started⟩
    simp only
    rcases (rewriteFile table dryRun path : StateM (Session σ) _) started with ⟨result, next⟩
    cases result <;> rfl

variable {output} (hq : output.Quiet)

include hq

-- A target is tried with the files as they are, and nothing else happens to them.
theorem visit_sameFiles (session : Session σ) (hp : session.isPresent path = true) :
    ∃ started : Session σ, started.SameFiles session ∧
      ((visit table dryRun output path : StateM (Session σ) _) session).2.SameFiles
        ((rewriteFile table dryRun path : StateM (Session σ) _) started).2 := by
  refine ⟨_, hq.line s!"Processing {path.display}..." session, ?_⟩
  rw [visit_run, if_pos hp]
  simp only
  split <;> exact hq.line _ _

theorem visit_absent (session : Session σ) (hp : session.isPresent path = false) :
    ((visit table dryRun output path : StateM (Session σ) _) session).2.SameFiles session := by
  rw [visit_run, hp]
  exact hq.line _ _

end TokenMigration
