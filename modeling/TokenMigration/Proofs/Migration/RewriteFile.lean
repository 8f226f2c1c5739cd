import TokenMigration.Proofs.Files.Rewritten
import TokenMigration.Session

namespace TokenMigration

variable {σ : Type}

-- The nodes that a path leads to from the current directory: one, or none.
def Session.leadsTo (session : Session σ) (path : Path) (id : NodeId) : Bool :=
  match session.tree.find session.current path with
  | .ok place => place.node = id
  | .error _ => false

-- How many of the paths lead to a node.
def Session.hits (session : Session σ) (paths : List Path) (id : NodeId) : Nat :=
  paths.countP fun path => session.leadsTo path id

-- The session in which a file has been overwritten, and nothing else has happened.
def Session.written (session : Session σ) (id : NodeId) (content : Bytes) : Session σ :=
  { session with
    tree := session.tree.modify id (Node.withContent content)
    overwritten := id :: session.overwritten }

theorem rewriteFile_run (table : Table) (dryRun : Bool) (path : Path) (session : Session σ) :
    (rewriteFile table dryRun path : StateM (Session σ) _) session =
      match (session.read path).bind table.revise with
      | .error reason => (.error (.fileOperation path .read reason), session)
      | .ok none => (.ok .unchanged, session)
      | .ok (some rewrite) =>
        if dryRun then (.ok (.wouldUpdate rewrite.replacements), session)
        else
          match session.overwrite path (Utf8.encode rewrite.content) with
          | (.error reason, next) => (.error (.fileOperation path .write reason), next)
          | (.ok (), next) => (.ok (.updated rewrite.replacements), next) := by
  simp only [rewriteFile, bind, StateT.bind, FileAccess.read]
  cases (session.read path).bind table.revise with
  | error reason => rfl
  | ok change =>
    cases change with
    | none => rfl
    | some rewrite =>
      cases dryRun with
      | true => rfl
      | false =>
        simp only [Bool.false_eq_true, if_false, bind, StateT.bind, FileAccess.overwrite]
        rcases session.overwrite path (Utf8.encode rewrite.content) with ⟨result, next⟩
        cases result <;> rfl

theorem Node.rewritten_one (table : Table) (rights : Rights) (content : Bytes) :
    (Node.file rights content).rewritten table 1 =
      match table.revise content with
      | .ok (some rewrite) =>
        if rights.read && rights.write then .file rights (Utf8.encode rewrite.content)
        else .file rights content
      | _ => .file rights content := by
  simp only [rewritten, Table.revise]
  cases hd : Utf8.decode? content with
  | none => rfl
  | some text =>
    by_cases hself : (table.apply text).content = text
    · have he := Utf8.decode?_eq_some_iff.mp hd
      simp [hself, he]
    · simp [hself]

namespace Session

theorem read_of_find {session : Session σ} {path : Path} {place : Place}
    (hf : session.tree.find session.current path = .ok place) :
    session.read path =
      match session.tree.node? place.node with
      | some (.file rights content) => if rights.read then .ok content else .error .permissionDenied
      | some (.directory rights _) =>
        .error (if rights.read then .isADirectory else .permissionDenied)
      | _ => .error .notFound := by
  simp only [read, FileTree.read, hf]
  rfl

theorem overwrite_of_find {session : Session σ} {path : Path} {place : Place} {rights : Rights}
    {content : Bytes} (hf : session.tree.find session.current path = .ok place)
    (hn : session.tree.node? place.node = some (.file rights content)) (bytes : Bytes) :
    session.overwrite path bytes =
      if rights.write then (.ok (), session.written place.node bytes)
      else (.error .permissionDenied, session) := by
  simp only [overwrite, FileTree.openForWriting, hf, bind, Except.bind, hn]
  cases rights.write <;> rfl

theorem hits_singleton_of_find {session : Session σ} {path : Path} {place : Place}
    (hf : session.tree.find session.current path = .ok place) :
    session.hits [path] = fun id => if place.node = id then 1 else 0 := by
  funext id
  by_cases hid : place.node = id <;> simp [hits, leadsTo, hf, hid]

theorem hits_singleton_of_error {session : Session σ} {path : Path} {reason : IoError}
    (hf : session.tree.find session.current path = .error reason) :
    session.hits [path] = fun _ => 0 := by
  funext id
  simp [hits, leadsTo, hf]

end Session

theorem rewriteFile_dryRun (table : Table) (path : Path) (session : Session σ) :
    ((rewriteFile table true path : StateM (Session σ) _) session).2 = session := by
  rw [rewriteFile_run]
  cases (session.read path).bind table.revise with
  | error reason => rfl
  | ok change => cases change <;> rfl

theorem rewriteFile_current (table : Table) (dryRun : Bool) (path : Path) (session : Session σ) :
    ((rewriteFile table dryRun path : StateM (Session σ) _) session).2.current =
      session.current := by
  rw [rewriteFile_run]
  cases (session.read path).bind table.revise with
  | error reason => rfl
  | ok change =>
    cases change with
    | none => rfl
    | some rewrite =>
      simp only [Session.overwrite]
      cases dryRun <;> cases session.tree.openForWriting session.current path <;> rfl

private theorem rewriteFile_tree_file (table : Table) {path : Path} {session : Session σ}
    {place : Place} {rights : Rights} {content : Bytes}
    (hf : session.tree.find session.current path = .ok place)
    (hn : session.tree.node? place.node = some (.file rights content)) :
    ((rewriteFile table false path : StateM (Session σ) _) session).2.tree =
      session.tree.modify place.node fun _ => (Node.file rights content).rewritten table 1 := by
  have hsame : session.tree.modify place.node (fun _ => .file rights content) = session.tree :=
    FileTree.modify_eq_self (fun node h => by rw [hn] at h; exact Option.some.inj h)
  cases hr : rights.read with
  | false =>
    rw [Node.rewritten_of_locked table 1 content (by simp [hr]), hsame, rewriteFile_run,
      Session.read_of_find hf, hn]
    simp [hr, Except.bind]
  | true =>
    rw [rewriteFile_run, Session.read_of_find hf, hn, Node.rewritten_one]
    simp only [hr, if_true, Except.bind, Bool.true_and]
    cases table.revise content with
    | error reason => exact hsame.symm
    | ok change =>
      cases change with
      | none => exact hsame.symm
      | some rewrite =>
        simp only [Bool.false_eq_true, if_false]
        rw [Session.overwrite_of_find hf hn]
        cases rights.write with
        | false => exact hsame.symm
        | true => exact FileTree.modify_congr (fun node h => by rw [hn] at h; cases h; rfl)

-- Whatever comes of the file, the tree is the one in which it has been rewritten once.
theorem rewriteFile_tree (table : Table) (path : Path) (session : Session σ) :
    ((rewriteFile table false path : StateM (Session σ) _) session).2.tree =
      session.tree.rewritten table (session.hits [path]) := by
  cases hf : session.tree.find session.current path with
  | error reason =>
    have hread : session.read path = .error reason := by
      simp [Session.read, FileTree.read, hf, bind, Except.bind]
    rw [rewriteFile_run, hread, Session.hits_singleton_of_error hf, FileTree.rewritten_zero]
    rfl
  | ok place =>
    rw [Session.hits_singleton_of_find hf, ← FileTree.modify_rewritten]
    cases hn : session.tree.node? place.node with
    | none =>
      rw [FileTree.modify_eq_self (by simp [hn]), rewriteFile_run, Session.read_of_find hf, hn]
      rfl
    | some node =>
      have hnode : ∀ other, session.tree.node? place.node = some other → other = node := by
        simp [hn, eq_comm]
      cases node with
      | directory rights entries =>
        rw [FileTree.modify_eq_self (fun other h => hnode other h ▸ rfl), rewriteFile_run,
          Session.read_of_find hf, hn]
        rfl
      | link target =>
        rw [FileTree.modify_eq_self (fun other h => hnode other h ▸ rfl), rewriteFile_run,
          Session.read_of_find hf, hn]
        rfl
      | file rights content =>
        rw [rewriteFile_tree_file table hf hn]
        exact FileTree.modify_congr (fun other h => hnode other h ▸ rfl)

end TokenMigration
