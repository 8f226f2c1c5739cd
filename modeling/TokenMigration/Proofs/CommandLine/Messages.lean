import TokenMigration.CommandLine.Messages

namespace TokenMigration

namespace ControlSequence

-- The text has no other control characters of ASCII than blank ones.
def Plain (text : String) : Prop := ∀ c ∈ text.toList, isText c

instance (text : String) : Decidable (Plain text) :=
  List.decidableBAll (isText ·) text.toList

theorem isText_of_mem_removeFrom {state : State} {visible : Bool} {text : List Char} {c : Char}
    (h : c ∈ removeFrom state visible text) : isText c := by
  induction text generalizing state visible with
  | nil => simp [removeFrom] at h
  | cons first rest ih =>
    rw [removeFrom] at h
    split at h
    · split at h
      · rename_i hfirst
        rcases List.mem_cons.mp h with rfl | h
        · exact hfirst
        · exact ih h
      · exact ih h
    · split at h
      · rename_i hblank
        rcases List.mem_cons.mp h with rfl | h
        · simp only [Bool.and_eq_true] at hblank
          simp [isText, hblank]
        · exact ih h
      · exact ih h

theorem plain_remove (text : String) : Plain (remove text) := by
  intro c hc
  rw [remove, String.toList_ofList] at hc
  exact isText_of_mem_removeFrom hc

theorem remove_eq_self_iff {text : String} : remove text = text ↔ Plain text := by
  constructor
  · intro h
    exact h ▸ plain_remove text
  · intro h
    rw [remove, removeFrom_eq_self h, String.ofList_toList]

theorem remove_remove (text : String) : remove (remove text) = remove text :=
  remove_eq_self_iff.mpr (plain_remove text)

theorem Plain.append {first second : String} (h : Plain first) (h' : Plain second) :
    Plain (first ++ second) := by
  intro c hc
  rw [String.toList_append, List.mem_append] at hc
  exact hc.elim (h c) (h' c)

theorem Plain.intercalate {separator : String} {texts : List String} (h : Plain separator)
    (htexts : ∀ text ∈ texts, Plain text) : Plain (separator.intercalate texts) := by
  induction texts with
  | nil => simp [Plain]
  | cons text rest ih =>
    have htext : Plain text := htexts text List.mem_cons_self
    have hrest := ih fun later hlater => htexts later (List.mem_cons_of_mem text hlater)
    cases rest with
    | nil => simpa using htext
    | cons next rest =>
      rw [String.intercalate_cons_cons]
      exact (htext.append h).append hrest

end ControlSequence

namespace CommandLine

open ControlSequence

theorem Argument.plain_shown (argument : Argument) : Plain argument.shown := by
  cases argument <;> decide

theorem Usage.plain_line (usage : Usage) : Plain usage.line := by
  have hshown : ∀ text ∈ usage.shown, Plain text := by
    intro text htext
    cases usage with
    | anyOptions =>
      obtain rfl := List.mem_singleton.mp htext
      decide
    | listing arguments =>
      obtain ⟨argument, _, rfl⟩ := List.mem_map.mp htext
      exact argument.plain_shown
    | grouping arguments =>
      rcases List.mem_append.mp htext with htext | htext
      · obtain ⟨argument, _, rfl⟩ := List.mem_map.mp htext
        exact argument.plain_shown
      · obtain rfl := List.mem_singleton.mp htext
        decide
  have hname : Plain s!"Usage: {programName} " := by decide
  have hspace : Plain " " := by decide
  rw [line]
  exact hname.append (hspace.intercalate hshown)

theorem Misuse.quotes_iff {shown : String} {usage : Usage} :
    (Misuse.unexpectedArgument shown usage).problem = s!"unexpected argument '{shown}' found" ↔
      Plain shown := by
  calc (Misuse.unexpectedArgument shown usage).problem = s!"unexpected argument '{shown}' found"
    _ ↔ "unexpected argument '" ++ remove shown ++ "' found" =
          "unexpected argument '" ++ shown ++ "' found" := .rfl
    _ ↔ remove shown = shown := by rw [String.append_left_inj, String.append_right_inj]
    _ ↔ Plain shown := remove_eq_self_iff

theorem Misuse.plain_problem (misuse : Misuse) : Plain misuse.problem := by
  cases misuse with
  | unexpectedArgument shown usage =>
    have hstart : Plain "unexpected argument '" := by decide
    have hend : Plain "' found" := by decide
    exact (hstart.append (plain_remove shown)).append hend
  | unexpectedValue shown argument usage =>
    have hstart : Plain "unexpected value '" := by decide
    have hfor : Plain "' for '" := by decide
    have hfound : Plain "' found; " := by decide
    have hend : Plain "no more were expected" := by decide
    exact ((((hstart.append (plain_remove shown)).append hfor).append
      argument.plain_shown).append hfound).append hend
  | missingValue argument =>
    have hstart : Plain "a value is required for '" := by decide
    have hend : Plain "' but none was supplied" := by decide
    exact (hstart.append argument.plain_shown).append hend
  | repeated argument =>
    have hstart : Plain "the argument '" := by decide
    have hend : Plain "' cannot be used multiple times" := by decide
    exact (hstart.append argument.plain_shown).append hend

theorem Misuse.plain_text (misuse : Misuse) : Plain misuse.text := by
  have husage : Plain ((misuse.usage?.map fun usage => usage.line ++ "\n\n").getD "") := by
    cases misuse.usage? with
    | none => decide
    | some usage => exact usage.plain_line.append (by decide)
  have hproblem : Plain s!"error: {misuse.problem}\n\n" := by
    refine .append (.append ?_ misuse.plain_problem) ?_ <;> decide
  have hadvice : Plain "For more information, try '--help'.\n" := by decide
  rw [text]
  exact (hproblem.append husage).append hadvice

-- An argument that would turn the text red.
example : (Misuse.unexpectedArgument "--\x1b[31mred" .anyOptions).problem =
    "unexpected argument '--red' found" := by
  decide

end CommandLine

end TokenMigration
