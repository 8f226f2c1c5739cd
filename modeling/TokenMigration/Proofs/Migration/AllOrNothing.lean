import TokenMigration.Proofs.Migration.TextFile
import TokenMigration.Table.StateGroups

namespace TokenMigration

variable {σ : Type}

-- Why no text can be had from a file: it cannot be read, or its bytes are no text.
def Session.Unreadable (session : Session σ) (path : Path) (reason : IoError) : Prop :=
  session.read path = .error reason ∨
    reason = .malformedText ∧ ∃ bytes, session.read path = .ok bytes ∧ Utf8.decode? bytes = none

-- The ways in which rewriting a file can end, each with what it leaves behind.
inductive Ending (table : Table) (dryRun : Bool) (path : Path) (session : Session σ) :
    Except Failure Change × Session σ → Prop
  | unreadable {reason : IoError} :
      session.Unreadable path reason →
      Ending table dryRun path session (.error (.fileOperation path .read reason), session)
  | unchanged {place : Place} {rights : Rights} {text : String} :
      session.FileAt path place rights (Utf8.encode text) → (table.apply text).content = text →
      Ending table dryRun path session (.ok .unchanged, session)
  | wouldUpdate {place : Place} {rights : Rights} {text : String} :
      session.FileAt path place rights (Utf8.encode text) → (table.apply text).content ≠ text →
      dryRun = true →
      Ending table dryRun path session
        (.ok (.wouldUpdate (table.apply text).replacements), session)
  | updated {place : Place} {rights : Rights} {text : String} :
      session.FileAt path place rights (Utf8.encode text) → (table.apply text).content ≠ text →
      dryRun = false → rights.write = true →
      Ending table dryRun path session
        (.ok (.updated (table.apply text).replacements),
          session.written place.node (Utf8.encode (table.apply text).content))
  | locked {place : Place} {rights : Rights} {text : String} :
      session.FileAt path place rights (Utf8.encode text) → (table.apply text).content ≠ text →
      dryRun = false → rights.write = false →
      Ending table dryRun path session
        (.error (.fileOperation path .write .permissionDenied), session)

section

variable (table : Table) (dryRun : Bool) (path : Path) (session : Session σ)

theorem rewriteFile_ending :
    Ending table dryRun path session
      ((rewriteFile table dryRun path : StateM (Session σ) _) session) := by
  cases hread : session.read path with
  | error reason =>
    rw [rewriteFile_of_unreadable hread]
    exact .unreadable (.inl hread)
  | ok bytes =>
    cases hd : Utf8.decode? bytes with
    | none =>
      rw [rewriteFile_of_malformed hread hd]
      exact .unreadable (.inr ⟨rfl, bytes, hread, hd⟩)
    | some text =>
      obtain rfl := Utf8.decode?_eq_some_iff.mp hd
      obtain ⟨place, rights, hfile, hr⟩ := Session.read_eq_ok_iff.mp hread
      rw [rewriteFile_of_text hfile hr]
      by_cases hself : (table.apply text).content = text
      · rw [if_pos hself]
        exact .unchanged hfile hself
      · rw [if_neg hself]
        cases dryRun with
        | true => exact .wouldUpdate hfile hself rfl
        | false =>
          cases hw : rights.write with
          | true => exact .updated hfile hself rfl hw
          | false => exact .locked hfile hself rfl hw

end

section

variable {table : Table} {dryRun : Bool} {path : Path} {session : Session σ}

theorem rewriteFile_eq_unreadable_iff {reason : IoError} :
    ((rewriteFile table dryRun path : StateM (Session σ) _) session).1 =
        .error (.fileOperation path .read reason) ↔ session.Unreadable path reason := by
  constructor
  · intro h
    have hend := rewriteFile_ending table dryRun path session
    generalize (rewriteFile table dryRun path : StateM (Session σ) _) session = run at h hend
    cases hend <;> simp_all [Failure.fileOperation]
  · rintro (h | ⟨rfl, bytes, h, hd⟩)
    · rw [rewriteFile_of_unreadable h]
    · rw [rewriteFile_of_malformed h hd]

-- Where no file is updated, nothing at all happens.
theorem rewriteFile_of_not_updated
    (h : ∀ n, ((rewriteFile table dryRun path : StateM (Session σ) _) session).1 ≠ .ok (.updated n)) :
    ((rewriteFile table dryRun path : StateM (Session σ) _) session).2 = session := by
  have hend := rewriteFile_ending table dryRun path session
  generalize (rewriteFile table dryRun path : StateM (Session σ) _) session = run at h hend
  cases hend with
  | updated _ _ _ _ => exact absurd rfl (h _)
  | unreadable _ | unchanged _ _ | wouldUpdate _ _ _ | locked _ _ _ _ => rfl

-- Every failure names the path, the step that has failed and the reason.
theorem rewriteFile_failure {failure : Failure}
    (h : ((rewriteFile table dryRun path : StateM (Session σ) _) session).1 = .error failure) :
    ∃ operation reason, failure = .fileOperation path operation reason := by
  have hend := rewriteFile_ending table dryRun path session
  generalize (rewriteFile table dryRun path : StateM (Session σ) _) session = run at h hend
  cases hend with
  | @unreadable reason _ => exact ⟨.read, reason, (Except.error.inj h).symm⟩
  | locked _ _ _ _ => exact ⟨.write, .permissionDenied, (Except.error.inj h).symm⟩
  | unchanged _ _ | wouldUpdate _ _ _ | updated _ _ _ _ => cases h

end

end TokenMigration
