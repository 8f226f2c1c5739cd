import TokenMigration.Session

namespace TokenMigration

variable {σ : Type}

namespace Session

-- The path leads to a directory with these rights and entries.
structure DirectoryAt (session : Session σ) (path : Path) (place : Place) (rights : Rights)
    (entries : List (Bytes × NodeId)) : Prop where
  find : session.tree.find session.current path = .ok place
  node : session.tree.node? place.node = some (.directory rights entries)

-- The ways in which listing a directory can end. The names come in the order of the entries.
inductive Listing (session : Session σ) (path : Path) : Except IoError (List Bytes) → Prop
  | names {place : Place} {rights : Rights} {entries : List (Bytes × NodeId)} :
      session.DirectoryAt path place rights entries → rights.read = true →
      Listing session path (.ok (entries.map Prod.fst))
  | locked {place : Place} {rights : Rights} {entries : List (Bytes × NodeId)} :
      session.DirectoryAt path place rights entries → rights.read = false →
      Listing session path (.error .permissionDenied)
  | noDirectory {place : Place} :
      session.tree.find session.current path = .ok place →
      (∀ rights entries, session.tree.node? place.node ≠ some (.directory rights entries)) →
      Listing session path (.error .notADirectory)
  | nowhere {reason : IoError} :
      session.tree.find session.current path = .error reason →
      Listing session path (.error reason)

variable {session : Session σ} {path : Path}

theorem list_of_find {place : Place} (h : session.tree.find session.current path = .ok place) :
    session.list path =
      match session.tree.node? place.node with
      | some (.directory rights entries) =>
        if rights.read then .ok (entries.map Prod.fst) else .error .permissionDenied
      | _ => .error .notADirectory := by
  simp only [list, FileTree.list, h]
  rfl

theorem DirectoryAt.list {place : Place} {rights : Rights} {entries : List (Bytes × NodeId)}
    (h : session.DirectoryAt path place rights entries) :
    session.list path =
      if rights.read then .ok (entries.map Prod.fst) else .error .permissionDenied := by
  rw [list_of_find h.find, h.node]

theorem Listing.list_eq {result : Except IoError (List Bytes)} (h : session.Listing path result) :
    session.list path = result := by
  cases h with
  | names hat hread => rw [hat.list, if_pos hread]
  | locked hat hread => rw [hat.list, hread, if_neg Bool.false_ne_true]
  | noDirectory hfind hnode =>
    rw [list_of_find hfind]
    split
    · rename_i rights entries h
      exact absurd h (hnode rights entries)
    · rfl
  | nowhere hfind =>
    simp only [list, FileTree.list, hfind]
    rfl

theorem listing_list (session : Session σ) (path : Path) :
    session.Listing path (session.list path) := by
  suffices hsome : ∃ result, session.Listing path result by
    obtain ⟨result, h⟩ := hsome
    exact h.list_eq ▸ h
  cases hfind : session.tree.find session.current path with
  | error reason => exact ⟨_, .nowhere hfind⟩
  | ok place =>
    by_cases hnode : ∃ rights entries,
        session.tree.node? place.node = some (.directory rights entries)
    · obtain ⟨rights, entries, hnode⟩ := hnode
      by_cases hread : rights.read = true
      · exact ⟨_, .names ⟨hfind, hnode⟩ hread⟩
      · exact ⟨_, .locked ⟨hfind, hnode⟩ (by simpa using hread)⟩
    · exact ⟨_, .noDirectory hfind fun rights entries h => hnode ⟨rights, entries, h⟩⟩

theorem list_eq_iff {result : Except IoError (List Bytes)} :
    session.list path = result ↔ session.Listing path result := by
  constructor
  · rintro rfl
    exact listing_list session path
  · exact Listing.list_eq

end Session

end TokenMigration
