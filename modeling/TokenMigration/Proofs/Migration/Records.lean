import TokenMigration.Migration.Summary

namespace TokenMigration

-- A change has been written, unless the run is dry.
def Outcome.status (dryRun : Bool) : Outcome → Status
  | .changed n => if dryRun then .wouldUpdate n else .updated n
  | .unchanged => .unchanged
  | .notFound => .notFound
  | .failed failure => .failed failure.message failure.code

def Outcome.item (outcome : Outcome) (dryRun : Bool) (path : Path) : Item :=
  ⟨path.display, outcome.status dryRun⟩

namespace Summary

def recordAll (summary : Summary) (records : List (Path × Outcome)) : Summary :=
  records.foldl (fun summary record => summary.record record.1 record.2) summary

theorem dryRun_record (summary : Summary) (path : Path) (outcome : Outcome) :
    (summary.record path outcome).dryRun = summary.dryRun := by
  cases outcome with
  | changed n =>
    simp only [record]
    split <;> rfl
  | unchanged => rfl
  | notFound => rfl
  | failed failure => rfl

theorem items_record (summary : Summary) (path : Path) (outcome : Outcome) :
    (summary.record path outcome).items =
      summary.items ++ [outcome.item summary.dryRun path] := by
  cases outcome with
  | changed n =>
    simp only [record, Outcome.item, Outcome.status]
    split <;> rfl
  | unchanged => rfl
  | notFound => rfl
  | failed failure => rfl

theorem items_recordAll (summary : Summary) (records : List (Path × Outcome)) :
    (summary.recordAll records).items =
      summary.items ++ records.map fun record => record.2.item summary.dryRun record.1 := by
  induction records generalizing summary with
  | nil => simp [recordAll]
  | cons record records ih =>
    have hrest := ih (summary.record record.1 record.2)
    rw [dryRun_record, items_record, List.append_assoc] at hrest
    exact hrest

end Summary

end TokenMigration
