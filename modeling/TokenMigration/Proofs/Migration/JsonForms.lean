import TokenMigration.Migration.Command
import TokenMigration.Proofs.Migration.Decoding

namespace TokenMigration

theorem Summary.nodup_fields (summary : Summary) : (summary.fields.map (·.1)).Nodup := by
  have hkeys : ["dryRun", "updated", "wouldUpdate", "unchanged", "notFound", "errors",
    "replacements", "items"].Nodup := by decide
  exact hkeys

namespace Completed

-- What the command says beside its summary.
def heading (completed : Completed) : List (String × Json) :=
  [("command", .text "rewrite"), ("root", .text completed.root.display),
    ("replacementPairs", .number completed.pairCount)]

theorem toJson_eq (completed : Completed) :
    completed.toJson = .object (completed.heading ++ completed.summary.fields) := rfl

theorem nodup_fields (completed : Completed) :
    ((completed.heading ++ completed.summary.fields).map (·.1)).Nodup := by
  have hkeys : ["command", "root", "replacementPairs", "dryRun", "updated", "wouldUpdate",
    "unchanged", "notFound", "errors", "replacements", "items"].Nodup := by decide
  exact hkeys

-- The fields of the heading have keys of their own, so those of the summary are the ones found.
theorem fieldsIn_toJson (completed : Completed) :
    completed.summary.FieldsIn Item.toJson completed.toJson := by
  constructor <;> rfl

-- The fields of the data, with the keys put in order.
def dataFields (completed : Completed) : List (String × Json) :=
  Json.sortedFields (completed.heading ++ completed.summary.fields)

theorem sorted_dataFields (completed : Completed) : Json.Sorted completed.dataFields :=
  Json.sorted_sortedFields (completed.heading ++ completed.summary.fields)

theorem dataFields_perm (completed : Completed) :
    completed.dataFields.Perm
      (completed.heading ++ Json.sortedFields completed.summary.fields) := by
  have hall := Json.sortedFields_perm completed.nodup_fields
  have hown := Json.sortedFields_perm completed.summary.nodup_fields
  have hheading : Json.sortKeysFields completed.heading = completed.heading := rfl
  rw [Json.sortKeysFields_append, hheading] at hall
  exact hall.trans (hown.symm.append_left completed.heading)

-- What the summary has under a key, the data have under the same key.
theorem field?_dataFields (completed : Completed) {field : String × Json}
    (h : field ∈ Json.sortedFields completed.summary.fields) :
    (Json.object completed.dataFields).field? field.1 = some field.2 := by
  rw [Json.field?, Json.lookup_eq_some_iff_mem completed.sorted_dataFields.nodup]
  exact completed.dataFields_perm.mem_iff.mpr (List.mem_append_right completed.heading h)

-- The data of the command tell all of the summary too.
theorem ofJson?_sortKeys (completed : Completed) :
    Summary.ofJson? completed.toJson.sortKeys = some completed.summary := by
  have hfields := completed.fieldsIn_toJson
  rw [toJson_eq] at hfields
  exact (hfields.sortKeys completed.nodup_fields).ofJson? Item.ofJson?_sortKeys

end Completed

-- Nothing of a summary is lost, in its own text or as a part of the data of the command. The data
-- are the fields of the summary and three more, under keys that the summary does not use. Any text
-- can stand for the root.
theorem Summary.json_forms_agree (summary : Summary) :
    ofText? summary.toJson.compact = some summary ∧
    (∀ other : Summary, other.toJson.compact = summary.toJson.compact → other = summary) ∧
    (∀ (root : Path) (pairCount : Nat), ∃ own data : List (String × Json),
      summary.toJson.sortKeys = .object own ∧
      Envelope.ofResult (.ok (Completed.response ⟨root, pairCount, summary⟩)) =
        (.success (.object data), 0) ∧
      data.Pairwise (fun field other => field.1 < other.1) ∧
      data.Perm ([("command", .text "rewrite"), ("root", .text root.display),
        ("replacementPairs", .number pairCount)] ++ own) ∧
      (∀ field ∈ own, (Json.object data).field? field.1 = some field.2) ∧
      ofJson? (.object data) = some summary) ∧
    ∀ text : String, ∃ root : Path, root.display = text := by
  refine ⟨summary.ofText?_compact, ?_, ?_, fun text => ⟨.ofString text, by simp⟩⟩
  · intro other htext
    have hother := other.ofText?_compact
    rw [htext, summary.ofText?_compact] at hother
    exact (Option.some.inj hother).symm
  · intro root pairCount
    let completed : Completed := ⟨root, pairCount, summary⟩
    refine ⟨Json.sortedFields summary.fields, completed.dataFields, rfl, rfl,
      completed.sorted_dataFields, completed.dataFields_perm, ?_, completed.ofJson?_sortKeys⟩
    intro field hfield
    exact completed.field?_dataFields hfield

end TokenMigration
