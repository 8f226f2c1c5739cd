import Mathlib.Data.List.Basic
import TokenMigration.Files.Tree.Edit
import TokenMigration.Proofs.Files.Content
import TokenMigration.Proofs.Files.Leads

namespace TokenMigration

theorem bind_eq_ok_iff {ε α β : Type} {x : Except ε α} {f : α → Except ε β} {result : β} :
    x >>= f = .ok result ↔ ∃ value, x = .ok value ∧ f value = .ok result := by
  cases x <;> simp [bind, Except.bind]

namespace FileTree

variable {tree next : FileTree} {place parent current : Place} {name content : Bytes} {path : Path}
  {steps : List Path.Step} {node : Node}

theorem node?_granted (tree : FileTree) (id : NodeId) :
    tree.granted.node? id = (tree.node? id).map (Node.withRights .all) := by
  simp [node?, granted]

theorem granted_extends (tree : FileTree) : tree.granted.Extends tree where
  entries id := by
    suffices h : tree.granted.entriesOf id = tree.entriesOf id from h ▸ List.prefix_rfl
    simp only [entriesOf, node?_granted]
    cases tree.node? id with
    | none => rfl
    | some node => cases node <;> rfl
  link := by
    intro id target
    rw [node?_granted]
    cases tree.node? id with
    | none => simp
    | some node => cases node <;> simp [Node.withRights]

theorem extends_modify (tree : FileTree) (id : NodeId) {f : Node → Node}
    (hentries : ∀ node, node.entries <+: (f node).entries)
    (hlink : ∀ node target, f node = .link target ↔ node = .link target) :
    tree.Extends (tree.modify id f) where
  entries other := by
    simp only [entriesOf, node?_modify]
    cases tree.node? other with
    | none => exact List.prefix_rfl
    | some node =>
      by_cases hid : id = other
      · simpa [hid] using hentries node
      · simp [hid]
  link := by
    intro other target
    rw [node?_modify]
    cases tree.node? other with
    | none => simp
    | some node =>
      by_cases hid : id = other
      · simpa [hid] using hlink node target
      · simp [hid]

theorem extends_withContent (tree : FileTree) (id : NodeId) (content : Bytes) :
    tree.Extends (tree.modify id (Node.withContent content)) := by
  apply extends_modify
  · intro node
    cases node <;> exact List.prefix_rfl
  · intro node target
    cases node <;> simp [Node.withContent]

theorem extends_addEntry (tree : FileTree) (directory : NodeId) (name : Bytes) (child : NodeId) :
    tree.Extends (tree.addEntry directory name child) := by
  apply extends_modify
  · intro node
    cases node <;> simp [Node.withEntries, Node.entries]
  · intro node target
    cases node <;> simp [Node.withEntries]

theorem node?_length (tree : FileTree) : tree.node? tree.nodes.length = none := by
  simp [node?]

theorem node?_push (tree : FileTree) (node : Node) (id : NodeId) :
    (FileTree.mk (tree.nodes ++ [node])).node? id =
      if id = tree.nodes.length then some node else tree.node? id := by
  rcases Nat.lt_trichotomy id tree.nodes.length with hlt | heq | hgt
  · rw [if_neg (Nat.ne_of_lt hlt), node?, node?, List.getElem?_append_left hlt]
  · simp [node?, heq]
  · have hbehind : (tree.nodes ++ [node]).length ≤ id := by
      rw [List.length_append]
      exact hgt
    rw [if_neg (Nat.ne_of_gt hgt), node?, node?, List.getElem?_eq_none hbehind,
      List.getElem?_eq_none (Nat.le_of_lt hgt)]

theorem entriesOf_push (hnode : node.entries = []) (id : NodeId) :
    (FileTree.mk (tree.nodes ++ [node])).entriesOf id = tree.entriesOf id := by
  simp only [entriesOf, node?_push]
  split
  · rename_i hid
    rw [hid, node?_length]
    exact hnode
  · rfl

theorem extends_push (hnode : ∀ target, node ≠ .link target) :
    tree.Extends ⟨tree.nodes ++ [node]⟩ where
  entries id := by
    simp only [entriesOf, node?_push]
    split
    · rename_i hid
      rw [hid, node?_length]
      exact List.nil_prefix
    · exact List.prefix_rfl
  link := by
    intro id target
    rw [node?_push]
    split
    · rename_i hid
      rw [hid, node?_length]
      simpa using hnode target
    · rfl

theorem extends_addNode (directory : NodeId) (name : Bytes)
    (hnode : ∀ target, node ≠ .link target) : tree.Extends (tree.addNode directory name node) :=
  (extends_push hnode).trans (extends_addEntry ..)

theorem lookup_addEntry (tree : FileTree) (directory : NodeId) (name : Bytes) (child : NodeId) :
    ((tree.addEntry directory name child).entriesOf directory).lookup name =
      ((tree.entriesOf directory).lookup name).or
        (if (tree.node? directory).any Node.isDirectory then some child else none) := by
  simp only [entriesOf, addEntry, node?_modify]
  cases tree.node? directory with
  | none => rfl
  | some node =>
    cases node <;>
      simp [Node.entries, Node.withEntries, Node.isDirectory, List.lookup_append]

-- A new node stands under its name if that was free.
theorem lookup_addNode {directory : NodeId} (hnode : node.entries = [])
    (hdirectory : (tree.node? directory).any Node.isDirectory = true)
    (hfree : (tree.entriesOf directory).lookup name = none) :
    ((tree.addNode directory name node).entriesOf directory).lookup name =
      some tree.nodes.length := by
  have hpresent : directory ≠ tree.nodes.length := by
    rintro rfl
    simp [node?_length] at hdirectory
  rw [addNode, lookup_addEntry, entriesOf_push hnode, hfree, Option.none_or, node?_push,
    if_neg hpresent, if_pos hdirectory]

theorem leads_addNode (hnode : node.entries = []) (hlink : ∀ target, node ≠ .link target)
    (hplace : (tree.node? place.node).any Node.isDirectory = true)
    (hfree : (tree.entriesOf place.node).lookup name = none) :
    (tree.addNode place.node name node).Leads place [.into name]
      ((name, tree.nodes.length) :: place) := by
  refine .enter (lookup_addNode hnode hplace hfree) (fun target h => ?_) .here
  have hold := (extends_addNode place.node name hlink).link.mp h
  simp [node?_length] at hold

-- A step that finds nothing was taken from a directory.
theorem isDirectory_of_notFound {links : Nat} {step : Path.Step}
    (h : tree.granted.walk links place [step] = .error .notFound) :
    (tree.node? place.node).any Node.isDirectory = true := by
  cases hplace : tree.node? place.node with
  | none => cases links <;> simp [walk, walkWith, node?_granted, hplace] at h
  | some node =>
    cases node with
    | directory rights entries => rfl
    | _ => cases links <;> simp [walk, walkWith, node?_granted, hplace, Node.withRights] at h

theorem makeDirectories_leads (h : tree.makeDirectories place steps = .ok (next, parent)) :
    tree.Extends next ∧ next.Leads place steps parent := by
  induction steps generalizing tree place with
  | nil =>
    cases h
    exact ⟨.refl _, .here⟩
  | cons step steps ih =>
    unfold makeDirectories at h
    split at h
    · rename_i step _ _ middle hwalk
      obtain ⟨hnext, hrest⟩ := ih h
      have hstep : next.Leads place [step] middle :=
        (leads_of_walk hwalk).extend ((granted_extends tree).trans hnext)
      exact ⟨hnext, hstep.append hrest⟩
    · rename_i name hwalk
      split at h
      · cases h
      · rename_i hfree
        obtain ⟨hnext, hrest⟩ := ih h
        have hlink : ∀ target, Node.directory .all [] ≠ .link target := by simp
        have hstep := leads_addNode rfl hlink (isDirectory_of_notFound hwalk)
          (Option.not_isSome_iff_eq_none.mp hfree)
        exact ⟨(extends_addNode place.node name hlink).trans hnext,
          (hstep.extend hnext).append hrest⟩
    · cases h

theorem makeParent_leads (h : tree.makeParent current path = .ok (next, parent, name)) :
    tree.Extends next ∧ (next.node? parent.node).any Node.isDirectory = true ∧
      ∃ steps, path.steps = steps ++ [.into name] ∧
        next.Leads (if path.isAbsolute then [] else current) steps parent := by
  simp only [makeParent] at h
  split at h
  · rename_i hlast
    obtain ⟨⟨made, place⟩, hmake, h⟩ := bind_eq_ok_iff.mp h
    obtain ⟨hmade, hsteps⟩ := makeDirectories_leads hmake
    split at h
    · rename_i hplace
      cases h
      exact ⟨hmade, hplace, path.steps.dropLast, (List.dropLast_append_getLast? _ hlast).symm,
        hsteps⟩
    · cases h
  · cases h

theorem node?_addNode_file (tree : FileTree) (directory : NodeId) (name content : Bytes) :
    (tree.addNode directory name (.file .all content)).node? tree.nodes.length =
      some (.file .all content) := by
  rw [addNode, addEntry, node?_modify, node?_push, if_pos rfl]
  simp [Node.withEntries]

-- A path under which a file has been put leads to one that holds the content.
theorem putFile_leads {links : Nat} (h : tree.putFile content links current path = .ok next) :
    tree.Extends next ∧
      ∃ last rights, next.Leads (if path.isAbsolute then [] else current) path.steps last ∧
        next.node? last.node = some (.file rights content) := by
  -- Each link at the end of the path is one step of the induction. The tree only grows on the
  -- way, so what has been found on it is still there in the end.
  induction links generalizing tree current path with
  | zero => cases h
  | succ links ih =>
    obtain ⟨⟨made, parent, name⟩, hmake, h⟩ := bind_eq_ok_iff.mp h
    obtain ⟨hmade, hdirectory, steps, hsteps, hparent⟩ := makeParent_leads hmake
    rw [hsteps]
    simp only at h
    split at h
    · rename_i hfree
      cases h
      have hlink : ∀ target, Node.file .all content ≠ .link target := by simp
      have hnext : made.Extends (made.addNode parent.node name (.file .all content)) :=
        extends_addNode parent.node name hlink
      exact ⟨hmade.trans hnext, _, .all,
        (hparent.extend hnext).append (leads_addNode rfl hlink hdirectory hfree),
        node?_addNode_file ..⟩
    · rename_i id hentry
      split at h
      · rename_i target hlink
        obtain ⟨hnext, last, rights, hlast, hfile⟩ := ih h
        rw [← List.append_nil target.steps] at hlast
        exact ⟨hmade.trans hnext, last, rights,
          (hparent.extend hnext).append
            (.follow (hnext.entry hentry) (hnext.link.mpr hlink) hlast), hfile⟩
      · rename_i rights old hold
        cases h
        have hnext := extends_withContent made id content
        have hfile : (made.modify id (Node.withContent content)).node? id =
            some (.file rights content) := by
          simp [node?_modify, hold, Node.withContent]
        exact ⟨hmade.trans hnext, (name, id) :: parent, rights,
          (hparent.extend hnext).append (.enter (hnext.entry hentry) (by simp [hfile]) .here),
          hfile⟩
      · cases h

theorem read_putFile {links : Nat} {bytes : Bytes}
    (hput : tree.putFile content links current path = .ok next)
    (hread : next.read current path = .ok bytes) : bytes = content := by
  obtain ⟨found, hfind, hread⟩ := bind_eq_ok_iff.mp hread
  obtain ⟨-, last, rights, hlast, hfile⟩ := putFile_leads hput
  obtain rfl : found = last := (leads_of_find hfind).unique hlast
  simp only [hfile] at hread
  split at hread
  · exact (Except.ok.inj hread).symm
  · cases hread

-- A new file in a new directory, read under another path than it was put under.
example :
    ((empty.putFile [104, 105] maxLinks [] (.ofString "a/b")).bind
      (·.read [] (.ofString "a/./b"))) = .ok [104, 105] := by
  decide +kernel

end FileTree

end TokenMigration
