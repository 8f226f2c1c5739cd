import TokenMigration.Files.Path

namespace TokenMigration.Path

theorem join_inj (path : Path) {rest other : Bytes} :
    path.join rest = path.join other ↔ rest = other := by
  simp only [join]
  split <;> simp

def Step.isMove : Step → Bool
  | .up => true
  | .into _ => true
  | .stay => false
  | .beDirectory => false

-- The steps of a path that lead elsewhere. Two paths with different moves differ in more than
-- doubled slashes, steps that stay and a slash at the end.
def moves (path : Path) : List Step := path.steps.filter Step.isMove

-- Only what stands between the slashes makes a move.
theorem moves_eq (path : Path) :
    path.moves = (((path.bytes.splitOn slash).filter (!·.isEmpty)).map Step.ofName).filter
      Step.isMove := by
  rw [moves, steps, List.filter_append]
  cases path.endsWithSlash with
  | true => exact List.append_nil _
  | false => exact List.append_nil _

theorem moves_nil : moves ⟨[]⟩ = [] := rfl

theorem moves_append_slash (first rest : Bytes) :
    moves ⟨first ++ slash :: rest⟩ = moves ⟨first⟩ ++ moves ⟨rest⟩ := by
  simp only [moves_eq, List.splitOn_append_cons_self, List.filter_append, List.map_append]

theorem moves_join (path : Path) (rest : Bytes) :
    (path.join rest).moves = path.moves ++ moves ⟨rest⟩ := by
  obtain ⟨bytes⟩ := path
  by_cases hempty : bytes = []
  · subst hempty
    rfl
  by_cases hslash : bytes.getLast? = some slash
  · -- the slash at the end is the one that separates the rest
    obtain ⟨first, rfl⟩ := List.getLast?_eq_some_iff.mp hslash
    have hjoin : (Path.mk (first ++ [slash])).join rest = ⟨first ++ slash :: rest⟩ := by
      simp [join, endsWithSlash]
    rw [hjoin, moves_append_slash, moves_append_slash, moves_nil, List.append_nil]
  · have hjoin : (Path.mk bytes).join rest = ⟨bytes ++ slash :: rest⟩ := by
      simp [join, endsWithSlash, hempty, hslash]
    rw [hjoin, moves_append_slash]

-- A name of more than two bytes is no step that stays or goes up.
theorem moves_name {name : Bytes} (hslash : slash ∉ name) (hlong : 2 < name.length) :
    moves ⟨name⟩ = [.into name] := by
  have hne {other : Bytes} (h : other.length ≤ 2) : name ≠ other := by
    rintro rfl
    exact absurd hlong (Nat.not_lt.mpr h)
  have hempty : name.isEmpty = false := List.isEmpty_eq_false_iff.mpr (hne (Nat.zero_le 2))
  have hstay : name ≠ [dot] := hne (by decide)
  have hup : name ≠ [dot, dot] := hne (by decide)
  simp [moves_eq, List.splitOn_eq_singleton hslash, hempty, Step.ofName, hstay, hup, Step.isMove]

end TokenMigration.Path
