import Mathlib.Algebra.GroupWithZero.Nat
import TokenMigration.Proofs.Migration.Report

namespace TokenMigration

def Outcome.replacements : Outcome → UInt64
  | .changed n => n
  | _ => 0

theorem Outcome.replacements_status (outcome : Outcome) (dryRun : Bool) :
    (outcome.status dryRun).replacements = outcome.replacements := by
  cases outcome <;> cases dryRun <;> rfl

namespace Summary

-- The counters, each under the name of its status.
def counters (summary : Summary) : List (String × UInt32) :=
  [("updated", summary.updated), ("would_update", summary.wouldUpdate),
    ("unchanged", summary.unchanged), ("not_found", summary.notFound), ("error", summary.errors)]

def itemsWith (summary : Summary) (name : String) : Nat :=
  summary.items.countP (·.status.name = name)

def itemReplacements (summary : Summary) : Nat :=
  (summary.items.map (·.status.replacements.toNat)).sum

-- Every counter holds the number of its items, as much of it as fits in.
structure Counted (summary : Summary) : Prop where
  counters : ∀ counter ∈ summary.counters, counter.2 = UInt32.ofNat (summary.itemsWith counter.1)
  replacements : summary.replacements = UInt64.ofNat summary.itemReplacements

theorem counted_start (dryRun : Bool) : (start dryRun).Counted where
  counters := by simp [Summary.counters, start, itemsWith]
  replacements := rfl

theorem counters_record (summary : Summary) (path : Path) (outcome : Outcome) :
    (summary.record path outcome).counters = summary.counters.map fun counter =>
      (counter.1,
        counter.2 + if counter.1 = (outcome.status summary.dryRun).name then 1 else 0) := by
  cases outcome with
  | changed n =>
    cases hd : summary.dryRun <;>
      simp [record, add, hd, counters, Outcome.status, Status.name]
  | _ => simp [record, add, counters, Outcome.status, Status.name]

theorem replacements_record (summary : Summary) (path : Path) (outcome : Outcome) :
    (summary.record path outcome).replacements =
      summary.replacements + outcome.replacements := by
  cases outcome with
  | changed n =>
    simp only [record]
    split <;> rfl
  | _ => simp [record, add, Outcome.replacements]

theorem itemsWith_record (summary : Summary) (path : Path) (outcome : Outcome) (name : String) :
    (summary.record path outcome).itemsWith name =
      summary.itemsWith name + if name = (outcome.status summary.dryRun).name then 1 else 0 := by
  simp [itemsWith, items_record, List.countP_append, List.countP_cons, Outcome.item, eq_comm]

theorem itemReplacements_record (summary : Summary) (path : Path) (outcome : Outcome) :
    (summary.record path outcome).itemReplacements =
      summary.itemReplacements + outcome.replacements.toNat := by
  simp [itemReplacements, items_record, Outcome.item, Outcome.replacements_status]

theorem Counted.record {summary : Summary} (h : summary.Counted) (path : Path)
    (outcome : Outcome) : (summary.record path outcome).Counted where
  counters := by
    intro counter hcounter
    rw [counters_record] at hcounter
    obtain ⟨before, hbefore, rfl⟩ := List.mem_map.mp hcounter
    rw [itemsWith_record, UInt32.ofNat_add, h.counters before hbefore]
    split <;> rfl
  replacements := by
    rw [replacements_record, itemReplacements_record, UInt64.ofNat_add, h.replacements,
      UInt64.ofNat_toNat]

theorem Counted.recordAll {summary : Summary} (h : summary.Counted)
    (records : List (Path × Outcome)) : (summary.recordAll records).Counted := by
  induction records generalizing summary with
  | nil => exact h
  | cons record records ih => exact ih (h.record record.1 record.2)

theorem dryRun_recordAll (summary : Summary) (records : List (Path × Outcome)) :
    (summary.recordAll records).dryRun = summary.dryRun := by
  induction records generalizing summary with
  | nil => rfl
  | cons record records ih => exact (ih _).trans (dryRun_record summary record.1 record.2)

theorem total_recordAll (dryRun : Bool) (records : List (Path × Outcome)) :
    ((start dryRun).recordAll records).total = records.length := by
  simp [total, items_recordAll, start]

theorem itemReplacements_recordAll (dryRun : Bool) (records : List (Path × Outcome)) :
    ((start dryRun).recordAll records).itemReplacements =
      (records.map (·.2.replacements.toNat)).sum := by
  simp [itemReplacements, items_recordAll, start, Function.comp_def, Outcome.item,
    Outcome.replacements_status]

-- Every item is counted, and only once.
theorem total_eq_add_itemsWith (summary : Summary) :
    summary.total = summary.itemsWith "updated" + summary.itemsWith "would_update" +
      summary.itemsWith "unchanged" + summary.itemsWith "not_found" +
      summary.itemsWith "error" := by
  simp only [total, itemsWith]
  induction summary.items with
  | nil => rfl
  | cons item items ih =>
    simp only [List.countP_cons, List.length_cons, ih, decide_eq_true_eq]
    cases item.status <;> simp [Status.name] <;> omega

theorem itemsWith_eq_zero {summary : Summary} {name : String}
    (h : ∀ item ∈ summary.items, item.status.name ≠ name) : summary.itemsWith name = 0 := by
  simpa [itemsWith, List.countP_eq_zero] using h

theorem Counted.toNat_counter {summary : Summary} (h : summary.Counted)
    (htotal : summary.total < 2 ^ 32) {counter : String × UInt32}
    (hcounter : counter ∈ summary.counters) : counter.2.toNat = summary.itemsWith counter.1 := by
  have hle : summary.itemsWith counter.1 ≤ summary.total := List.countP_le_length
  rw [h.counters counter hcounter]
  exact UInt32.toNat_ofNat_of_lt' (by simp [UInt32.size]; omega)

end Summary

theorem Status.name_of_fits {status : Status} {dryRun : Bool} (h : status.fits dryRun = true) :
    status.name ≠ if dryRun then "updated" else "would_update" := by
  cases status <;> cases dryRun <;> simp_all [Status.fits, Status.name]

namespace Summary

-- What a summary says after any number of records. Every counter agrees with the items, no record
-- is lost, an error is told where there is one, and a record adds its item behind all earlier ones.
theorem recordAll_bookkeeping (dryRun : Bool) (records : List (Path × Outcome))
    (hlength : records.length < 2 ^ 32)
    (hreplacements : (records.map (·.2.replacements.toNat)).sum < 2 ^ 64) :
    let summary := (start dryRun).recordAll records
    summary.updated.toNat = summary.itemsWith "updated" ∧
    summary.wouldUpdate.toNat = summary.itemsWith "would_update" ∧
    summary.unchanged.toNat = summary.itemsWith "unchanged" ∧
    summary.notFound.toNat = summary.itemsWith "not_found" ∧
    summary.errors.toNat = summary.itemsWith "error" ∧
    summary.updated.toNat + summary.wouldUpdate.toNat + summary.unchanged.toNat +
      summary.notFound.toNat + summary.errors.toNat = summary.total ∧
    summary.total = records.length ∧
    summary.replacements.toNat = summary.itemReplacements ∧
    (dryRun = false → summary.wouldUpdate = 0) ∧ (dryRun = true → summary.updated = 0) ∧
    (∀ item ∈ summary.items,
      (item.status.message?.isSome ↔ item.status.name = "error") ∧
      (item.status.code?.isSome ↔ item.status.name = "error")) ∧
    summary.dryRun = dryRun ∧
    summary.items = records.map (fun record => record.2.item dryRun record.1) ∧
    ∀ path outcome,
      (start dryRun).recordAll (records ++ [(path, outcome)]) = summary.record path outcome ∧
      (summary.record path outcome).items = summary.items ++ [outcome.item dryRun path] := by
  intro summary
  have hcounted : summary.Counted := (counted_start dryRun).recordAll records
  have htotal : summary.total = records.length := total_recordAll dryRun records
  have hdryRun : summary.dryRun = dryRun := dryRun_recordAll (start dryRun) records
  have hitems : summary.items = records.map fun record => record.2.item dryRun record.1 :=
    items_recordAll (start dryRun) records
  have hcounter := fun counter => @Counted.toNat_counter summary hcounted (by omega) counter
  have hupdated := hcounter ("updated", summary.updated) (by simp [counters])
  have hwouldUpdate := hcounter ("would_update", summary.wouldUpdate) (by simp [counters])
  have hunchanged := hcounter ("unchanged", summary.unchanged) (by simp [counters])
  have hnotFound := hcounter ("not_found", summary.notFound) (by simp [counters])
  have herrors := hcounter ("error", summary.errors) (by simp [counters])
  have habsent : summary.itemsWith (if dryRun then "updated" else "would_update") = 0 := by
    apply itemsWith_eq_zero
    rw [hitems]
    intro item hitem
    obtain ⟨record, -, rfl⟩ := List.mem_map.mp hitem
    exact Status.name_of_fits (record.2.fits_status dryRun)
  refine ⟨hupdated, hwouldUpdate, hunchanged, hnotFound, herrors, ?_, htotal, ?_, ?_, ?_, ?_,
    hdryRun, hitems, ?_⟩
  · rw [hupdated, hwouldUpdate, hunchanged, hnotFound, herrors, total_eq_add_itemsWith]
  · rw [hcounted.replacements]
    exact UInt64.toNat_ofNat_of_lt' (by
      rw [itemReplacements_recordAll]
      exact hreplacements)
  · rintro rfl
    exact UInt32.toNat_inj.mp (hwouldUpdate.trans habsent)
  · rintro rfl
    exact UInt32.toNat_inj.mp (hupdated.trans habsent)
  · intro item _
    cases item.status <;> simp [Status.message?, Status.code?, Status.name]
  · intro path outcome
    constructor
    · simp [summary, recordAll]
    · rw [items_record, hdryRun]

theorem recordAll_bookkeeping_four_records :
    let records : List (Path × Outcome) := [
      (.ofString "a.rs", .changed 3), (.ofString "b.rs", .unchanged),
      (.ofString "c.rs", .notFound),
      (.ofString "d.rs", .failed (.fileOperation (.ofString "d.rs") .read .malformedText))]
    let summary := (start false).recordAll records
    records.length < 2 ^ 32 ∧ (records.map (·.2.replacements.toNat)).sum < 2 ^ 64 ∧
      summary.updated.toNat = summary.itemsWith "updated" ∧ summary.itemsWith "updated" = 1 ∧
      summary.total = 4 ∧ summary.replacements.toNat = 3 := by
  intro records summary
  have hlength : records.length < 2 ^ 32 := by decide
  have hreplacements : (records.map (·.2.replacements.toNat)).sum < 2 ^ 64 := by decide
  obtain ⟨hupdated, -, -, -, -, -, htotal, hsum, -⟩ :=
    recordAll_bookkeeping false records hlength hreplacements
  exact ⟨hlength, hreplacements, hupdated, by decide, htotal, hsum.trans (by decide)⟩

end Summary

end TokenMigration
