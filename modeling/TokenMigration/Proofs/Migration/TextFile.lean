import TokenMigration.Proofs.Migration.RewriteFile
import TokenMigration.Proofs.Table.Apply

namespace TokenMigration

variable {σ : Type}

namespace Session

-- The path leads to a regular file with these rights and this content.
structure FileAt (session : Session σ) (path : Path) (place : Place) (rights : Rights)
    (content : Bytes) : Prop where
  find : session.tree.find session.current path = .ok place
  node : session.tree.node? place.node = some (.file rights content)

variable {session : Session σ} {path : Path} {place : Place} {rights : Rights} {bytes : Bytes}

theorem FileAt.read (h : session.FileAt path place rights bytes) :
    session.read path = if rights.read then .ok bytes else .error .permissionDenied := by
  rw [read_of_find h.find, h.node]

theorem read_eq_ok_iff : session.read path = .ok bytes ↔
    ∃ place rights, session.FileAt path place rights bytes ∧ rights.read = true := by
  constructor
  · intro h
    cases hf : session.tree.find session.current path with
    | error reason => simp [Session.read, FileTree.read, hf, bind, Except.bind] at h
    | ok place =>
      rw [read_of_find hf] at h
      split at h
      · rename_i rights content hn
        split at h
        · rename_i hr
          obtain rfl := Except.ok.inj h
          exact ⟨place, rights, ⟨hf, hn⟩, hr⟩
        · cases h
      · cases h
      · cases h
  · rintro ⟨place, rights, h, hr⟩
    rw [h.read, if_pos hr]

-- Nothing but the content of the one file is different.
theorem FileAt.node?_written (h : session.FileAt path place rights bytes) (content : Bytes)
    (id : NodeId) :
    (session.written place.node content).tree.node? id =
      if id = place.node then some (.file rights content) else session.tree.node? id := by
  rw [written, FileTree.node?_modify]
  by_cases hid : id = place.node
  · subst hid
    simp [h.node, Node.withContent]
  · simp [hid, Ne.symm hid]

end Session

variable {session : Session σ} {path : Path}

theorem rewriteFile_of_unreadable {reason : IoError} (h : session.read path = .error reason)
    (table : Table) (dryRun : Bool) :
    (rewriteFile table dryRun path : StateM (Session σ) _) session =
      (.error (.fileOperation path .read reason), session) := by
  rw [rewriteFile_run, h]
  rfl

theorem rewriteFile_of_malformed {bytes : Bytes} (h : session.read path = .ok bytes)
    (hd : Utf8.decode? bytes = none) (table : Table) (dryRun : Bool) :
    (rewriteFile table dryRun path : StateM (Session σ) _) session =
      (.error (.fileOperation path .read .malformedText), session) := by
  rw [rewriteFile_run, h]
  simp [Except.bind, Table.revise, hd]

-- What is done with a text that has been read: the content decides first, then whether the run is
-- dry, then whether the file may be written.
theorem rewriteFile_of_text {place : Place} {rights : Rights} {text : String}
    (h : session.FileAt path place rights (Utf8.encode text)) (hr : rights.read = true)
    (table : Table) (dryRun : Bool) :
    (rewriteFile table dryRun path : StateM (Session σ) _) session =
      if (table.apply text).content = text then (.ok .unchanged, session)
      else if dryRun then (.ok (.wouldUpdate (table.apply text).replacements), session)
      else if rights.write then
        (.ok (.updated (table.apply text).replacements),
          session.written place.node (Utf8.encode (table.apply text).content))
      else (.error (.fileOperation path .write .permissionDenied), session) := by
  rw [rewriteFile_run, h.read, if_pos hr]
  simp only [Except.bind, Table.revise, Utf8.decode?_encode]
  by_cases hself : (table.apply text).content = text
  · rw [if_pos hself, if_pos hself]
  · rw [if_neg hself, if_neg hself]
    cases dryRun with
    | true => rfl
    | false =>
      simp only [Bool.false_eq_true, if_false]
      rw [Session.overwrite_of_find h.find h.node]
      cases rights.write <;> rfl

theorem rewriteFile_eq_unchanged_iff {text : String} (h : session.read path = .ok (Utf8.encode text))
    (table : Table) (dryRun : Bool) :
    ((rewriteFile table dryRun path : StateM (Session σ) _) session).1 = .ok .unchanged ↔
      (table.apply text).content = text := by
  obtain ⟨place, rights, hfile, hr⟩ := Session.read_eq_ok_iff.mp h
  rw [rewriteFile_of_text hfile hr]
  by_cases hself : (table.apply text).content = text
  · simp [hself]
  · rw [if_neg hself]
    simp only [hself, iff_false]
    cases dryRun with
    | true => simp
    | false => cases rights.write <;> simp

-- A table that changes a text has replaced something in it.
theorem Table.one_le_replacements {table : Table} {text : String}
    (h : (table.apply text).content ≠ text) : 1 ≤ (table.apply text).replacements := by
  rw [Nat.one_le_iff_ne_zero, ne_eq, replacements_eq_zero_iff]
  intro hself
  exact h (congrArg Rewrite.content hself)

end TokenMigration
