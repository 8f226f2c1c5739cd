import TokenMigration.Files.Tree

namespace TokenMigration

-- Where a step leads that needs no entry.
def Place.after (place : Place) : Path.Step → Option Place
  | .stay => some place
  | .beDirectory => some place
  | .up => some place.tail
  | .into _ => none

namespace FileTree

-- Where steps lead from a place, whatever the rights and however many links are followed.
inductive Leads (tree : FileTree) : Place → List Path.Step → Place → Prop
  | here {place : Place} : Leads tree place [] place
  | move {place middle last : Place} {step : Path.Step} {steps : List Path.Step} :
      place.after step = some middle → Leads tree middle steps last →
      Leads tree place (step :: steps) last
  | enter {place last : Place} {name : Bytes} {id : NodeId} {steps : List Path.Step} :
      (tree.entriesOf place.node).lookup name = some id →
      (∀ target, tree.node? id ≠ some (.link target)) →
      Leads tree ((name, id) :: place) steps last → Leads tree place (.into name :: steps) last
  | follow {place last : Place} {name : Bytes} {id : NodeId} {target : Path}
      {steps : List Path.Step} :
      (tree.entriesOf place.node).lookup name = some id → tree.node? id = some (.link target) →
      Leads tree (if target.isAbsolute then [] else place) (target.steps ++ steps) last →
      Leads tree place (.into name :: steps) last

variable {tree next : FileTree} {place middle last : Place} {steps rest : List Path.Step}

theorem Leads.unique {other : Place} (h : tree.Leads place steps last)
    (h' : tree.Leads place steps other) : last = other := by
  induction h generalizing other with
  | here =>
    cases h'
    rfl
  | move hafter _ ih =>
    cases h' with
    | move hafter' h' =>
      cases hafter.symm.trans hafter'
      exact ih h'
    | enter _ _ _ => cases hafter
    | follow _ _ _ => cases hafter
  | enter hentry hnode _ ih =>
    cases h' with
    | move hafter' _ => cases hafter'
    | enter hentry' _ h' =>
      cases hentry.symm.trans hentry'
      exact ih h'
    | follow hentry' hlink _ =>
      cases hentry.symm.trans hentry'
      exact absurd hlink (hnode _)
  | follow hentry hlink _ ih =>
    cases h' with
    | move hafter' _ => cases hafter'
    | enter hentry' hnode _ =>
      cases hentry.symm.trans hentry'
      exact absurd hlink (hnode _)
    | follow hentry' hlink' h' =>
      cases hentry.symm.trans hentry'
      cases hlink.symm.trans hlink'
      exact ih h'

theorem Leads.append (h : tree.Leads place steps middle) (h' : tree.Leads middle rest last) :
    tree.Leads place (steps ++ rest) last := by
  induction h with
  | here => exact h'
  | move hafter _ ih => exact .move hafter (ih h')
  | enter hentry hnode _ ih => exact .enter hentry hnode (ih h')
  | follow hentry hlink _ ih => exact .follow hentry hlink (List.append_assoc .. ▸ ih h')

-- The next tree has the entries of the tree in front of its own, and the same links.
structure Extends (tree next : FileTree) : Prop where
  entries : ∀ id, tree.entriesOf id <+: next.entriesOf id
  link : ∀ {id : NodeId} {target : Path},
    next.node? id = some (.link target) ↔ tree.node? id = some (.link target)

theorem Extends.refl (tree : FileTree) : tree.Extends tree := ⟨fun _ => List.prefix_rfl, .rfl⟩

theorem Extends.trans {other : FileTree} (h : tree.Extends next) (h' : next.Extends other) :
    tree.Extends other where
  entries id := (h.entries id).trans (h'.entries id)
  link := h'.link.trans h.link

theorem Extends.entry {id child : NodeId} {name : Bytes} (h : tree.Extends next)
    (hentry : (tree.entriesOf id).lookup name = some child) :
    (next.entriesOf id).lookup name = some child :=
  (h.entries id).lookup_eq_some hentry

theorem Leads.extend (h : tree.Leads place steps last) (hnext : tree.Extends next) :
    next.Leads place steps last := by
  induction h with
  | here => exact .here
  | move hafter _ ih => exact .move hafter ih
  | enter hentry hnode _ ih =>
    exact .enter (hnext.entry hentry) (fun target hlink => hnode target (hnext.link.mp hlink)) ih
  | follow hentry hlink _ ih => exact .follow (hnext.entry hentry) (hnext.link.mpr hlink) ih

theorem leads_of_walkWith {follow : Place → Path → List Path.Step → Except IoError Place}
    (hfollow : ∀ {place target rest last}, follow place target rest = .ok last →
      tree.Leads (if target.isAbsolute then [] else place) (target.steps ++ rest) last)
    (h : tree.walkWith follow place steps = .ok last) : tree.Leads place steps last := by
  induction steps generalizing place with
  | nil =>
    cases h
    exact .here
  | cons step steps ih =>
    rw [walkWith] at h
    split at h
    · rename_i rights entries hplace
      have hentries : tree.entriesOf place.node = entries := by
        simp [entriesOf, hplace, Node.entries]
      cases step with
      | beDirectory => exact .move rfl (ih h)
      | stay =>
        simp only at h
        split at h
        · exact .move rfl (ih h)
        · cases h
      | up =>
        simp only at h
        split at h
        · exact .move rfl (ih h)
        · cases h
      | into name =>
        simp only at h
        split at h
        · cases h
        · split at h
          · cases h
          · rename_i id hentry
            rw [← hentries] at hentry
            split at h
            · rename_i target hlink
              exact .follow hentry hlink (hfollow h)
            · rename_i hnode
              exact .enter hentry hnode (ih h)
    · cases h

theorem leads_of_walk {links : Nat} (h : tree.walk links place steps = .ok last) :
    tree.Leads place steps last := by
  induction links generalizing place steps last with
  | zero => exact leads_of_walkWith (fun h => by cases h) h
  | succ links ih => exact leads_of_walkWith (fun h => ih h) h

theorem leads_of_find {current : Place} {path : Path} (h : tree.find current path = .ok last) :
    tree.Leads (if path.isAbsolute then [] else current) path.steps last := by
  rw [find] at h
  split at h
  · cases h
  · split at h
    · cases h
    · split at h
      · cases h
      · exact leads_of_walk h

end FileTree

end TokenMigration
