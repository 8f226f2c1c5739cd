import TokenMigration.Envelope
import TokenMigration.Proofs.Json.Printed

namespace TokenMigration

theorem Failure.foldl_withHint (failure : Failure) (hints : List String) :
    hints.foldl Failure.withHint failure = { failure with hints := failure.hints ++ hints } := by
  induction hints generalizing failure with
  | nil => simp
  | cons hint hints ih =>
    rw [List.foldl_cons, ih]
    simp [Failure.withHint]

namespace Envelope

theorem read?_text (envelope : Envelope) :
    Json.read? envelope.text = some envelope.toJson ∧
      Json.read? (envelope.text ++ "\n") = some envelope.toJson := by
  constructor
  · exact Json.read?_pretty envelope.toJson
  · have hblank : ∀ c ∈ ['\n'], Json.isBlank c = true := by simp [Json.isBlank]
    have hread := Json.read?_print .indented 0 envelope.toJson hblank
    rwa [String.ofList_append] at hread

-- A response is one JSON text, alone and with the line break behind it. A failure is told with its
-- code, message and details and, where it has any, with its hints in the order in which they were
-- given. Data are told as they are.
theorem read?_response :
    (∀ (cause : Cause) (hints : List String),
      let failure := hints.foldl Failure.withHint { cause }
      let hintField : List (String × Json) :=
        if hints = [] then []
        else [("hints", .array (hints.map fun hint => .object [("message", .text hint)]))]
      let told : Json := .object [("success", .bool false), ("error", .object ([
        ("code", .text failure.code.name), ("message", .text failure.message),
        ("details", failure.details)] ++ hintField))]
      Json.read? (Envelope.error failure).text = some told ∧
        Json.read? ((Envelope.error failure).text ++ "\n") = some told) ∧
    ∀ data : Json, ∃ text,
      textOf (.ok data) = .ok text ∧
        Json.read? text = some (.object [("success", .bool true), ("data", data)]) ∧
        Json.read? (text ++ "\n") = some (.object [("success", .bool true), ("data", data)]) := by
  constructor
  · intro cause hints failure hintField told
    have htold : (Envelope.error failure).toJson = told := by
      have hhints : failure.hints = hints := by simp [failure, Failure.foldl_withHint]
      simp only [toJson, errorFields, hhints, told, hintField]
      cases hints <;> rfl
    rw [← htold]
    exact read?_text _
  · intro data
    exact ⟨_, rfl, read?_text (.success data)⟩

end Envelope

end TokenMigration
