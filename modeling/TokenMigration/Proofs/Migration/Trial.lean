import TokenMigration.Proofs.Migration.Visit

namespace TokenMigration

variable {σ τ : Type}

theorem rewriteFile_result (table : Table) (dryRun : Bool) (path : Path) (session : Session σ) :
    ((rewriteFile table dryRun path : StateM (Session σ) _) session).1 =
      match (session.read path).bind table.revise with
      | .error reason => .error (.fileOperation path .read reason)
      | .ok none => .ok .unchanged
      | .ok (some rewrite) =>
        if dryRun then .ok (.wouldUpdate rewrite.replacements)
        else
          match session.tree.openForWriting session.current path with
          | .error reason => .error (.fileOperation path .write reason)
          | .ok _ => .ok (.updated rewrite.replacements) := by
  rw [rewriteFile_run]
  cases (session.read path).bind table.revise with
  | error reason => rfl
  | ok change =>
    cases change with
    | none => rfl
    | some rewrite =>
      simp only [Session.overwrite]
      cases dryRun <;> cases session.tree.openForWriting session.current path <;> rfl

namespace Session

-- The path leads to the same place in both sessions, and what is there is the same.
structure SameAt (session : Session σ) (other : Session τ) (path : Path) : Prop where
  find : session.tree.find session.current path = other.tree.find other.current path
  node : ∀ {place}, session.tree.find session.current path = .ok place →
    session.tree.node? place.node = other.tree.node? place.node

namespace SameAt

variable {session : Session σ} {other : Session τ} {path : Path} (h : session.SameAt other path)

include h

theorem isPresent : session.isPresent path = other.isPresent path := by
  simp only [Session.isPresent, h.find]

theorem read : session.read path = other.read path := by
  simp only [Session.read, FileTree.read, ← h.find]
  cases hf : session.tree.find session.current path with
  | error reason => rfl
  | ok place => simp only [bind, Except.bind, h.node hf]

theorem openForWriting :
    session.tree.openForWriting session.current path =
      other.tree.openForWriting other.current path := by
  simp only [FileTree.openForWriting, ← h.find]
  cases hf : session.tree.find session.current path with
  | error reason => rfl
  | ok place => simp only [bind, Except.bind, h.node hf]

theorem result (table : Table) (dryRun : Bool) :
    ((rewriteFile table dryRun path : StateM (Session σ) _) session).1 =
      ((rewriteFile table dryRun path : StateM (Session τ) _) other).1 := by
  rw [rewriteFile_result, rewriteFile_result, h.read, h.openForWriting]

end SameAt

-- What comes of a target that is tried in the session as it is.
def outcome (session : Session σ) (table : Table) (dryRun : Bool) (path : Path) : Outcome :=
  if session.isPresent path then
    match ((rewriteFile table dryRun path : StateM (Session σ) _) session).1 with
    | .ok change => change.outcome
    | .error failure => .failed failure
  else .notFound

theorem SameAt.outcome {session : Session σ} {other : Session τ} {path : Path}
    (h : session.SameAt other path) (table : Table) (dryRun : Bool) :
    session.outcome table dryRun path = other.outcome table dryRun path := by
  simp only [Session.outcome, h.isPresent, h.result table dryRun]

-- A target that is not there leaves the session alone, too.
def tried (session : Session σ) (table : Table) (dryRun : Bool) (path : Path) : Session σ :=
  ((rewriteFile table dryRun path : StateM (Session σ) _) session).2

def triedAll (session : Session σ) (table : Table) (dryRun : Bool) (targets : List Path) :
    Session σ :=
  targets.foldl (fun session path => session.tried table dryRun path) session

-- What comes of the targets when they are tried one after the other.
def outcomes (session : Session σ) (table : Table) (dryRun : Bool) :
    List Path → List (Path × Outcome)
  | [] => []
  | path :: targets =>
    (path, session.outcome table dryRun path) ::
      (session.tried table dryRun path).outcomes table dryRun targets

variable (table : Table) (dryRun : Bool)

theorem tried_of_absent {session : Session σ} {path : Path} (hp : session.isPresent path = false) :
    session.tried table dryRun path = session := by
  simp only [isPresent] at hp
  cases hf : session.tree.find session.current path with
  | ok place => simp [hf, Except.toBool] at hp
  | error reason =>
    have hread : session.read path = .error reason := by
      simp [Session.read, FileTree.read, hf, bind, Except.bind]
    rw [tried, rewriteFile_run, hread]
    rfl

-- A target is tried with the files that the ones before it have left.
theorem getElem?_outcomes (session : Session σ) (targets : List Path) (i : Nat) :
    (session.outcomes table dryRun targets)[i]? =
      targets[i]?.map fun path =>
        (path, (session.triedAll table dryRun (targets.take i)).outcome table dryRun path) := by
  induction targets generalizing session i with
  | nil => rfl
  | cons path targets ih =>
    cases i with
    | zero => rfl
    | succ i => exact ih (session.tried table dryRun path) i

theorem map_fst_outcomes (session : Session σ) (targets : List Path) :
    (session.outcomes table dryRun targets).map Prod.fst = targets := by
  induction targets generalizing session with
  | nil => rfl
  | cons path targets ih => exact congrArg (path :: ·) (ih _)

theorem triedAll_current (session : Session σ) (targets : List Path) :
    (session.triedAll table dryRun targets).current = session.current := by
  induction targets generalizing session with
  | nil => rfl
  | cons path targets ih => exact (ih _).trans (rewriteFile_current table dryRun path session)

theorem triedAll_dryRun (session : Session σ) (targets : List Path) :
    session.triedAll table true targets = session := by
  induction targets with
  | nil => rfl
  | cons path targets ih =>
    rw [triedAll, List.foldl_cons, tried, rewriteFile_dryRun]
    exact ih

theorem hits_cons (session : Session σ) (path : Path) (paths : List Path) :
    session.hits (path :: paths) = fun id => session.hits [path] id + session.hits paths id := by
  funext id
  simp only [hits, List.countP_cons, List.countP_nil]
  omega

-- Rewriting files does not change where paths lead to.
theorem hits_of_rewritten {session next : Session σ} {table : Table} {times : NodeId → Nat}
    (ht : next.tree = session.tree.rewritten table times) (hc : next.current = session.current)
    (paths : List Path) : next.hits paths = session.hits paths := by
  funext id
  simp only [hits, leadsTo, ht, hc,
    FileTree.find_congr (FileTree.emptied_rewritten session.tree table times)]

-- By induction over the targets. A later target finds what the earlier ones have left, under the
-- paths that led there from the start.
theorem triedAll_tree (session : Session σ) (targets : List Path) :
    (session.triedAll table false targets).tree =
      session.tree.rewritten table (session.hits targets) := by
  induction targets generalizing session with
  | nil => exact (FileTree.rewritten_zero session.tree table).symm
  | cons path targets ih =>
    have ht := rewriteFile_tree table path session
    have hc := rewriteFile_current table false path session
    have hrest := ih (session.tried table false path)
    rw [tried, ht, hits_of_rewritten ht hc, FileTree.rewritten_rewritten,
      ← hits_cons session path targets] at hrest
    exact hrest

namespace SameFiles

variable {session : Session σ} {other : Session τ} (h : session.SameFiles other)

include h

theorem sameAt (path : Path) : session.SameAt other path where
  find := by rw [h.tree, h.current]
  node _ := by rw [h.tree]

theorem tried (path : Path) :
    (session.tried table dryRun path).SameFiles (other.tried table dryRun path) := by
  simp only [Session.tried, rewriteFile_run, (h.sameAt path).read]
  cases (other.read path).bind table.revise with
  | error reason => exact h
  | ok change =>
    cases change with
    | none => exact h
    | some rewrite =>
      cases dryRun with
      | true => exact h
      | false =>
        simp only [Bool.false_eq_true, if_false, overwrite, (h.sameAt path).openForWriting]
        cases other.tree.openForWriting other.current path with
        | error reason => exact h
        | ok id => exact ⟨by simp only [h.tree], h.current, by simp only [h.overwritten]⟩

theorem triedAll (targets : List Path) :
    (session.triedAll table dryRun targets).SameFiles (other.triedAll table dryRun targets) := by
  induction targets generalizing session other with
  | nil => exact h
  | cons path targets ih => exact ih (h.tried table dryRun path)

theorem outcomes (targets : List Path) :
    session.outcomes table dryRun targets = other.outcomes table dryRun targets := by
  induction targets generalizing session other with
  | nil => rfl
  | cons path targets ih =>
    simp only [Session.outcomes, (h.sameAt path).outcome, ih (h.tried table dryRun path)]

end SameFiles

end Session

section Outputs

variable (table : Table) (dryRun : Bool) {output : Output (StateM (Session σ))}
  (hq : output.Quiet) (path : Path) (session : Session σ)

include hq

theorem visit_outcome :
    ((visit table dryRun output path : StateM (Session σ) _) session).1 =
      session.outcome table dryRun path := by
  rw [visit_run, Session.outcome]
  split
  · simp only [((hq.line _ session).sameAt path).result table dryRun]
    cases ((rewriteFile table dryRun path : StateM (Session σ) _) session).1 <;> rfl
  · rfl

theorem visit_tried :
    ((visit table dryRun output path : StateM (Session σ) _) session).2.SameFiles
      (session.tried table dryRun path) := by
  cases hp : session.isPresent path with
  | true =>
    obtain ⟨started, hs, hv⟩ := visit_sameFiles table dryRun path hq session hp
    exact hv.trans (hs.tried table dryRun path)
  | false =>
    rw [Session.tried_of_absent table dryRun hp]
    exact visit_absent table dryRun path hq session hp

end Outputs

end TokenMigration
