import Mathlib.Data.List.Sort
import TokenMigration.Proofs.Files.Listing
import TokenMigration.Proofs.Migration.Records
import TokenMigration.Proofs.Migration.Trial

namespace TokenMigration

variable {σ : Type}

theorem Layout.select_eq_insertionSort (layout : Layout) (names : List Bytes) :
    layout.select names =
      (names.filter fun name => Utf8.encode layout.extension <:+ name).insertionSort (· ≤ ·) := by
  have hfilter : names.filter ((Utf8.encode layout.extension).isSuffixOf ·) =
      names.filter fun name => Utf8.encode layout.extension <:+ name := by
    refine List.filter_congr fun name _ => ?_
    rw [Bool.eq_iff_iff, List.isSuffixOf_iff_suffix, decide_eq_true_eq]
  rw [select, hfilter, List.mergeSort_eq_insertionSort]

namespace Session

-- What a migration is to try: the extra paths, and behind them the entries of the directory whose
-- names end in the extension, in the order of their bytes.
def targets (session : Session σ) (layout : Layout) : List Path :=
  match session.list layout.directory with
  | .ok names =>
    layout.extraPaths ++
      ((names.filter fun name => Utf8.encode layout.extension <:+ name).insertionSort (· ≤ ·)).map
        layout.directory.join
  | .error _ => layout.extraPaths

theorem targets_of_list {session : Session σ} {layout : Layout} {names : List Bytes}
    (h : session.list layout.directory = .ok names) :
    session.targets layout = layout.targets names := by
  rw [targets, h, Layout.targets, Layout.select_eq_insertionSort]

-- How often the targets lead to a node, in whatever order the entries are taken.
theorem hits_targets (session : Session σ) (layout : Layout) (id : NodeId) :
    session.hits (session.targets layout) id =
      session.hits layout.extraPaths id +
        match session.list layout.directory with
        | .ok names => names.countP fun name =>
            Utf8.encode layout.extension <:+ name ∧ session.leadsTo (layout.directory.join name) id
        | .error _ => 0 := by
  rw [targets]
  cases session.list layout.directory with
  | error reason => rfl
  | ok names =>
    have hperm := List.perm_insertionSort (· ≤ ·)
      (names.filter fun name => Utf8.encode layout.extension <:+ name)
    simp only [hits, List.countP_append, List.countP_map, hperm.countP_eq, List.countP_filter]
    congr 2
    funext name
    simp [Bool.and_comm]

-- The summary before the first target: empty, unless the directory could not be listed.
def opening (session : Session σ) (layout : Layout) (dryRun : Bool) : Summary :=
  match session.list layout.directory with
  | .ok _ => .start dryRun
  | .error reason => (Summary.start dryRun).record layout.directory
      (.failed (.fileOperation layout.directory .list reason))

theorem dryRun_opening (session : Session σ) (layout : Layout) (dryRun : Bool) :
    (session.opening layout dryRun).dryRun = dryRun := by
  simp only [opening]
  cases session.list layout.directory with
  | ok names => rfl
  | error reason => rw [Summary.dryRun_record, Summary.start]

theorem items_opening (session : Session σ) (layout : Layout) (dryRun : Bool) :
    (session.opening layout dryRun).items =
      match session.list layout.directory with
      | .ok _ => []
      | .error reason =>
        [⟨layout.directory.display, .failed reason.message .fileOperationFailed⟩] := by
  simp only [opening]
  cases session.list layout.directory <;> rfl

theorem map_path_outcomes (table : Table) (dryRun : Bool) (session : Session σ)
    (targets : List Path) :
    ((session.outcomes table dryRun targets).map fun record =>
        record.2.item dryRun record.1).map Item.path = targets.map Path.display := by
  have hpaths := congrArg (List.map Path.display) (map_fst_outcomes table dryRun session targets)
  rw [List.map_map] at hpaths ⊢
  exact hpaths

end Session

section Outputs

variable {output : Output (StateM (Session σ))} (hq : output.Quiet) (table : Table)

def visitAll (table : Table) (dryRun : Bool) (output : Output (StateM (Session σ)))
    (targets : List Path) (summary : Summary) : StateM (Session σ) Summary :=
  targets.foldlM
    (fun summary path => do return summary.record path (← visit table dryRun output path)) summary

theorem visitAll_cons (dryRun : Bool) (output : Output (StateM (Session σ))) (path : Path)
    (targets : List Path) (summary : Summary) (session : Session σ) :
    visitAll table dryRun output (path :: targets) summary session =
      let tried := (visit table dryRun output path : StateM (Session σ) _) session
      visitAll table dryRun output targets (summary.record path tried.1) tried.2 := by
  simp only [visitAll, List.foldlM_cons, bind, StateT.bind]
  rfl

-- The session when the targets are known and the first one is still to be tried.
def Session.announced (session : Session σ) (layout : Layout) (table : Table)
    (output : Output (StateM (Session σ))) : Session σ :=
  let listed :=
    match session.list layout.directory with
    | .ok _ => session
    | .error reason => (output.line
        ((Failure.fileOperation layout.directory .list reason).line layout.directory) session).2
  (output.note s!"{(session.targets layout).length} target(s), {table.size} replacement pair(s)"
    listed).2

theorem migrate_eq_visitAll (layout : Layout) (dryRun : Bool)
    (output : Output (StateM (Session σ))) (session : Session σ) :
    (migrate layout table dryRun output : StateM (Session σ) _) session =
      visitAll table dryRun output (session.targets layout) (session.opening layout dryRun)
        (session.announced layout table output) := by
  simp only [migrate, Layout.discover, bind, StateT.bind, FileAccess.list, Session.targets,
    Session.opening, Session.announced, ← Layout.select_eq_insertionSort]
  cases session.list layout.directory <;> rfl

include hq

theorem announced_sameFiles (layout : Layout) (session : Session σ) :
    (session.announced layout table output).SameFiles session := by
  simp only [Session.announced]
  cases session.list layout.directory with
  | ok names => exact hq.note _ session
  | error reason => exact (hq.note _ _).trans (hq.line _ session)

theorem migrate_run (layout : Layout) (dryRun : Bool) (session : Session σ) :
    ∃ started : Session σ, started.SameFiles session ∧
      (migrate layout table dryRun output : StateM (Session σ) _) session =
        visitAll table dryRun output (session.targets layout) (session.opening layout dryRun)
          started :=
  ⟨_, announced_sameFiles hq table layout session,
    migrate_eq_visitAll table layout dryRun output session⟩

theorem visitAll_triedAll (dryRun : Bool) (targets : List Path) (summary : Summary)
    (session : Session σ) :
    (visitAll table dryRun output targets summary session).2.SameFiles
      (session.triedAll table dryRun targets) := by
  induction targets generalizing summary session with
  | nil => exact ⟨rfl, rfl, rfl⟩
  | cons path targets ih =>
    rw [visitAll_cons]
    exact (ih _ _).trans ((visit_tried table dryRun hq path session).triedAll table dryRun targets)

theorem visitAll_summary (dryRun : Bool) (targets : List Path) (summary : Summary)
    (session : Session σ) :
    (visitAll table dryRun output targets summary session).1 =
      summary.recordAll (session.outcomes table dryRun targets) := by
  induction targets generalizing summary session with
  | nil => rfl
  | cons path targets ih =>
    rw [visitAll_cons]
    simp only [ih, visit_outcome table dryRun hq path session,
      (visit_tried table dryRun hq path session).outcomes table dryRun targets]
    rfl

theorem visitAll_tree (targets : List Path) (summary : Summary) (session : Session σ) :
    (visitAll table false output targets summary session).2.tree =
      session.tree.rewritten table (session.hits targets) := by
  rw [(visitAll_triedAll hq table false targets summary session).tree, Session.triedAll_tree]

theorem visitAll_dryRun (targets : List Path) (summary : Summary) (session : Session σ) :
    (visitAll table true output targets summary session).2.tree = session.tree := by
  rw [(visitAll_triedAll hq table true targets summary session).tree, Session.triedAll_dryRun]

-- The files after a migration depend on the files before it alone, and so does the summary.
theorem migrate_triedAll (layout : Layout) (dryRun : Bool) (session : Session σ) :
    ((migrate layout table dryRun output : StateM (Session σ) _) session).2.SameFiles
      (session.triedAll table dryRun (session.targets layout)) := by
  obtain ⟨started, hs, hm⟩ := migrate_run hq table layout dryRun session
  rw [hm]
  exact (visitAll_triedAll hq table dryRun _ _ started).trans (hs.triedAll table dryRun _)

theorem migrate_summary (layout : Layout) (dryRun : Bool) (session : Session σ) :
    ((migrate layout table dryRun output : StateM (Session σ) _) session).1 =
      (session.opening layout dryRun).recordAll
        (session.outcomes table dryRun (session.targets layout)) := by
  obtain ⟨started, hs, hm⟩ := migrate_run hq table layout dryRun session
  rw [hm, visitAll_summary hq, hs.outcomes]

theorem migrate_items (layout : Layout) (dryRun : Bool) (session : Session σ) :
    ((migrate layout table dryRun output : StateM (Session σ) _) session).1.items =
      (session.opening layout dryRun).items ++
        (session.outcomes table dryRun (session.targets layout)).map fun record =>
          record.2.item dryRun record.1 := by
  rw [migrate_summary hq, Summary.items_recordAll, Session.dryRun_opening]

theorem map_path_migrate_items (layout : Layout) (dryRun : Bool) (session : Session σ) :
    ((migrate layout table dryRun output : StateM (Session σ) _) session).1.items.map Item.path =
      (session.opening layout dryRun).items.map Item.path ++
        (session.targets layout).map Path.display := by
  rw [migrate_items hq, List.map_append, Session.map_path_outcomes]

theorem getElem?_migrate_items (layout : Layout) (dryRun : Bool) (session : Session σ) (i : Nat) :
    ((migrate layout table dryRun output : StateM (Session σ) _) session).1.items[
        (session.opening layout dryRun).items.length + i]? =
      (session.targets layout)[i]?.map fun path =>
        ((session.triedAll table dryRun ((session.targets layout).take i)).outcome
          table dryRun path).item dryRun path := by
  rw [migrate_items hq, List.getElem?_append_right (Nat.le_add_right _ _),
    Nat.add_sub_cancel_left, List.getElem?_map, Session.getElem?_outcomes, Option.map_map]
  rfl

end Outputs

-- The tree after a migration: every file holds what the table makes of it, applied once for each
-- extra path and for each entry of the directory with the extension, as far as these lead to the
-- file. A dry run leaves all as it is.
theorem migrate_tree (sink : Sink σ) (stderrIsTerminal : Bool) (layout : Layout) (table : Table)
    (session : Session σ) :
    let times (id : NodeId) : Nat :=
      session.hits layout.extraPaths id +
        match session.list layout.directory with
        | .ok names => names.countP fun name =>
            Utf8.encode layout.extension <:+ name ∧ session.leadsTo (layout.directory.join name) id
        | .error _ => 0
    session.Listing layout.directory (session.list layout.directory) ∧
    ((migrate layout table false (Session.streams sink stderrIsTerminal).reporting :
        StateM (Session σ) _) session).2.tree = session.tree.rewritten table times ∧
    ((migrate layout table true (Session.streams sink stderrIsTerminal).reporting :
        StateM (Session σ) _) session).2.tree = session.tree := by
  have hq := Session.reporting_quiet sink stderrIsTerminal
  intro times
  have htimes : session.hits (session.targets layout) = times := by
    funext id
    exact session.hits_targets layout id
  refine ⟨session.listing_list layout.directory, ?_, ?_⟩
  · obtain ⟨started, hs, hm⟩ := migrate_run hq table layout false session
    rw [hm, visitAll_tree hq, hs.tree, hs.hits, htimes]
  · obtain ⟨started, hs, hm⟩ := migrate_run hq table layout true session
    rw [hm, visitAll_dryRun hq, hs.tree]

-- The file "a.rs" is tried three times, as an extra path, as an entry and through the link "c.rs",
-- and the file "b.md" not at all.
theorem migrate_tree_listed_directory :
    let layout : Layout := ⟨[.ofString "a.rs"], .ofString ".", ".rs"⟩
    let top : Node := .directory .all
      [(Utf8.encode "c.rs", 3), (Utf8.encode "b.md", 2), (Utf8.encode "a.rs", 1)]
    let file (text : String) : Node := .file .all (Utf8.encode text)
    let tree (text : String) : FileTree :=
      ⟨[top, file text, file "old", .link (.ofString "a.rs")]⟩
    let session : Session String := ⟨tree "old", [], "", "", []⟩
    let run (dryRun : Bool) :=
      (migrate layout (.ofList [("old", "older")]) dryRun
        (Session.streams Sink.collecting false).reporting : StateM (Session String) _) session
    (run false).2.tree = tree "oldererer" ∧ (run true).2.tree = tree "old" := by
  intro layout top file tree session run
  obtain ⟨-, hrun, hdry⟩ :=
    migrate_tree Sink.collecting false layout (.ofList [("old", "older")]) session
  exact ⟨hrun.trans (by decide +kernel), hdry⟩

end TokenMigration
