import TokenMigration.Proofs.Migration.Apart

namespace TokenMigration

variable {σ : Type}

theorem Node.rewritten_of_settled {table : Table} {content : Bytes}
    (h : ∀ rewrite, table.revise content ≠ .ok (some rewrite)) (times : Nat) (rights : Rights) :
    (Node.file rights content).rewritten table times = .file rights content := by
  simp only [rewritten]
  cases hd : Utf8.decode? content with
  | none => rfl
  | some text =>
    have hself : (table.apply text).content = text := by
      by_contra hne
      exact h (table.apply text) (by simp [Table.revise, hd, hne])
    have hrun : (fun text => (table.apply text).content)^[times] text = text :=
      Function.iterate_fixed hself times
    simp only [hrun, ← Utf8.decode?_eq_some_iff.mp hd, ite_self]

namespace Session

def isWritable (session : Session σ) (path : Path) : Bool :=
  (session.tree.openForWriting session.current path).toBool

-- There is nothing to rewrite under the path: it cannot be read, or it is to stay as it is.
def Settled (session : Session σ) (table : Table) (path : Path) : Prop :=
  ∀ rewrite, (session.read path).bind table.revise ≠ .ok (some rewrite)

theorem isPresent_of_read {session : Session σ} {path : Path} {bytes : Bytes}
    (h : session.read path = .ok bytes) : session.isPresent path = true := by
  simp only [isPresent]
  cases hf : session.tree.find session.current path with
  | ok place => rfl
  | error reason => simp [read, FileTree.read, hf, bind, Except.bind] at h

theorem outcome_of_revised {session : Session σ} {table : Table} {path : Path} {rewrite : Rewrite}
    (h : (session.read path).bind table.revise = .ok (some rewrite)) (dryRun : Bool) :
    session.outcome table dryRun path =
      if dryRun then .changed rewrite.replacements.toUInt64
      else
        match session.tree.openForWriting session.current path with
        | .ok _ => .changed rewrite.replacements.toUInt64
        | .error reason => .failed (.fileOperation path .write reason) := by
  have hp : session.isPresent path = true := by
    cases hr : session.read path with
    | ok bytes => exact isPresent_of_read hr
    | error reason => simp [hr, Except.bind] at h
  rw [outcome, if_pos hp, rewriteFile_result, h]
  cases dryRun with
  | true => rfl
  | false => cases session.tree.openForWriting session.current path <;> rfl

theorem settled_of_outcome {session : Session σ} {table : Table} {path : Path}
    (h : ∀ n, session.outcome table true path ≠ .changed n) : session.Settled table path := by
  intro rewrite hr
  exact h _ (outcome_of_revised hr true)

-- Whether the run is dry only matters where there is something to rewrite.
theorem Settled.outcome {session : Session σ} {table : Table} {path : Path}
    (h : session.Settled table path) (dryRun : Bool) :
    session.outcome table dryRun path = session.outcome table true path := by
  simp only [Session.outcome, rewriteFile_result]
  cases hr : (session.read path).bind table.revise with
  | error reason => rfl
  | ok change =>
    cases change with
    | none => rfl
    | some rewrite => exact absurd hr (h rewrite)

theorem Settled.node?_rewritten {session : Session σ} {table : Table} {path : Path}
    (h : session.Settled table path) {place : Place}
    (hf : session.tree.find session.current path = .ok place) (times : NodeId → Nat) :
    (session.tree.rewritten table times).node? place.node = session.tree.node? place.node := by
  apply FileTree.node?_rewritten_eq_self
  intro rights content hn
  cases hr : rights.read with
  | false => exact Node.rewritten_of_locked table _ content (by simp [hr])
  | true =>
    have hread : session.read path = .ok content := by rw [read_of_find hf, hn]; simp [hr]
    have hcontent : ∀ rewrite, table.revise content ≠ .ok (some rewrite) := by
      simpa only [Settled, hread, Except.bind] using h
    exact Node.rewritten_of_settled hcontent _ rights

-- However often the file of a settled target has been tried before, under whatever names.
theorem Settled.outcome_triedAll {session : Session σ} {table : Table} {path : Path}
    (h : session.Settled table path) (targets : List Path) :
    (session.triedAll table false targets).outcome table false path =
      session.outcome table true path := by
  have hsame : (session.triedAll table false targets).SameAt session path :=
    { find := triedAll_find table false session targets path
      node := fun hf => by
        rw [triedAll_find] at hf
        rw [triedAll_tree, h.node?_rewritten hf] }
  rw [hsame.outcome, h.outcome]

theorem outcome_triedAll_of_writable {session : Session σ} {table : Table} {targets : List Path}
    {path : Path} {n : UInt64} (h : session.outcome table true path = .changed n)
    (hw : session.isWritable path) (hapart : ∀ target ∈ targets, ¬ session.SharesFile target path) :
    (session.triedAll table false targets).outcome table false path = .changed n := by
  rw [(triedAll_sameAt table false hapart).outcome]
  by_cases hs : session.Settled table path
  · rw [hs.outcome, h]
  · simp only [Settled, not_forall, not_not] at hs
    obtain ⟨rewrite, hr⟩ := hs
    rw [outcome_of_revised hr, if_pos rfl] at h
    rw [outcome_of_revised hr, if_neg Bool.false_ne_true, ← h]
    simp only [isWritable] at hw
    cases ho : session.tree.openForWriting session.current path with
    | ok id => rfl
    | error reason => simp [ho, Except.toBool] at hw

end Session

theorem Outcome.status_eq_wouldUpdate_iff {outcome : Outcome} {n : UInt64} :
    outcome.status true = .wouldUpdate n ↔ outcome = .changed n := by
  cases outcome <;> simp [status]

theorem Outcome.item_of_ne_changed {outcome : Outcome} (h : ∀ n, outcome ≠ .changed n)
    (path : Path) : outcome.item false path = outcome.item true path := by
  cases outcome with
  | changed n => exact absurd rfl (h n)
  | unchanged => rfl
  | notFound => rfl
  | failed failure => rfl

-- A dry run tells what a run would do: all but the changes come out the same, and a change is made
-- if its file can be written and no target before it has led to the file.
theorem migrate_dryRun_predicts (sink : Sink σ) (stderrIsTerminal : Bool) (layout : Layout)
    (table : Table) (session : Session σ) :
    let run := fun dryRun =>
      ((migrate layout table dryRun (Session.streams sink stderrIsTerminal).reporting :
        StateM (Session σ) _) session).1
    (run true).items.map Item.path = (run false).items.map Item.path ∧
      (∀ (i : Nat) (item : Item), (run true).items[i]? = some item →
        (∀ n, item.status ≠ .wouldUpdate n) → (run false).items[i]? = some item) ∧
      ∀ (i : Nat) (path : Path) (n : UInt64), (session.targets layout)[i]? = some path →
        let position := (session.opening layout true).items.length + i
        (run true).items[position]? = some ⟨path.display, .wouldUpdate n⟩ →
        session.isWritable path →
        (∀ earlier ∈ (session.targets layout).take i, ¬ session.SharesFile earlier path) →
        (run false).items[position]? = some ⟨path.display, .updated n⟩ := by
  have hq := Session.reporting_quiet sink stderrIsTerminal
  have hopening : (session.opening layout true).items = (session.opening layout false).items := by
    rw [Session.items_opening, Session.items_opening]
  intro run
  refine ⟨?_, fun i item hi hstatus => ?_, fun i path n hi => ?_⟩
  · rw [map_path_migrate_items hq, map_path_migrate_items hq, hopening]
  · rcases Nat.lt_or_ge i (session.opening layout true).items.length with hlt | hge
    · rw [migrate_items hq, List.getElem?_append_left hlt] at hi
      rw [migrate_items hq, ← hopening, List.getElem?_append_left hlt, hi]
    · obtain ⟨j, rfl⟩ := Nat.exists_eq_add_of_le hge
      rw [getElem?_migrate_items hq, Session.triedAll_dryRun] at hi
      obtain ⟨path, hj, rfl⟩ := Option.map_eq_some_iff.mp hi
      have hne : ∀ n, session.outcome table true path ≠ .changed n :=
        fun n h => hstatus n (Outcome.status_eq_wouldUpdate_iff.mpr h)
      rw [hopening, getElem?_migrate_items hq, hj, Option.map_some,
        (Session.settled_of_outcome hne).outcome_triedAll, Outcome.item_of_ne_changed hne]
  · intro position hdry hw hapart
    rw [getElem?_migrate_items hq, Session.triedAll_dryRun, hi, Option.map_some] at hdry
    have hchanged : session.outcome table true path = .changed n :=
      Outcome.status_eq_wouldUpdate_iff.mp (congrArg Item.status (Option.some.inj hdry))
    have hposition : position = (session.opening layout false).items.length + i := by
      rw [← hopening]
    rw [hposition, getElem?_migrate_items hq, hi, Option.map_some,
      Session.outcome_triedAll_of_writable hchanged hw hapart]
    rfl

-- The target "a" with an old token stands twice among the targets, "b" is no text. The second try
-- at "a" finds nothing left to do, which the dry run does not tell.
theorem migrate_dryRun_predicts_repeated_target :
    let layout : Layout := ⟨[⟨[97]⟩, ⟨[97]⟩, ⟨[98]⟩], ⟨[100]⟩, ".rs"⟩
    let sink : Sink Unit := ⟨fun _ _ => (.error .deviceFull, ())⟩
    let top : Node := .directory .all [([97], 1), ([98], 2)]
    let file : Node := .file .all (Utf8.encode "old")
    let session : Session Unit := ⟨⟨[top, file, .file .all [255]]⟩, [], (), "", []⟩
    let run := fun dryRun =>
      ((migrate layout (.ofList [("old", "new")]) dryRun (Session.streams sink true).reporting :
        StateM (Session Unit) _) session).1
    let failed : Item :=
      ⟨"b", .failed "stream did not contain valid UTF-8" .fileOperationFailed⟩
    (run true).items[1]? = some ⟨"a", .wouldUpdate 1⟩ ∧
      (run false).items[1]? = some ⟨"a", .updated 1⟩ ∧
      (run true).items[2]? = some ⟨"a", .wouldUpdate 1⟩ ∧
      (run false).items[2]? = some ⟨"a", .unchanged⟩ ∧
      (run true).items[3]? = some failed ∧ (run false).items[3]? = some failed := by
  intro layout sink top file session run failed
  obtain ⟨-, hsame, hchange⟩ := migrate_dryRun_predicts sink true layout (.ofList [("old", "new")])
    session
  have hposition : (session.opening layout true).items.length = 1 := by decide +kernel
  have hdry : (run true).items[1]? = some ⟨"a", .wouldUpdate 1⟩ := by decide +kernel
  have hfailed : (run true).items[3]? = some failed := by decide +kernel
  refine ⟨hdry, ?_, by decide +kernel, by decide +kernel, hfailed, ?_⟩
  · have h := hchange 0 ⟨[97]⟩ 1 (by decide +kernel)
    rw [hposition] at h
    exact h hdry (by decide +kernel) (by decide +kernel)
  · exact hsame 3 failed hfailed (by intro n h; cases h)

end TokenMigration
