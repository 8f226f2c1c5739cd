import TokenMigration.Proofs.Table.Lines
import TokenMigration.Proofs.Text.Utf8

namespace TokenMigration.Table

open Substitution

-- The pairs of tokens as they stand in a file.
def byteWords (table : Table) : List (Bytes × Bytes) :=
  table.pairs.map fun pair => (Utf8.encode pair.old, Utf8.encode pair.new)

theorem byteWords_eq_coded (table : Table) :
    table.byteWords = coded String.utf8EncodeChar table.words := by
  simp [byteWords, coded, words, Utf8.encode_eq_flatMap]

section

variable {table : Table} (hne : ∀ pair ∈ table.pairs, pair.old ≠ "")

include hne

theorem words_ne_nil : ∀ p ∈ table.words, p.1 ≠ [] := by
  rw [forall_words]
  intro pair hpair
  simpa using hne pair hpair

theorem replaceInOrder_encode (text : String) :
    replaceInOrder table.byteWords (Utf8.encode text) =
      (Utf8.encode (table.apply text).content, (table.apply text).replacements) := by
  rw [byteWords_eq_coded, Utf8.encode_eq_flatMap,
    Utf8.synchronised.replaceInOrder_flatMap (words_ne_nil hne), Utf8.encode_eq_flatMap,
    content_apply, replacements_apply]

-- The bytes of a character that stands in no old token keep apart what is on their two sides.
theorem replaceInOrder_encode_append {c : Char} (hc : ∀ pair ∈ table.pairs, c ∉ pair.old.toList)
    (s t : String) :
    replaceInOrder table.byteWords (Utf8.encode s ++ String.utf8EncodeChar c ++ Utf8.encode t) =
      ((replaceInOrder table.byteWords (Utf8.encode s)).1 ++ String.utf8EncodeChar c ++
          (replaceInOrder table.byteWords (Utf8.encode t)).1,
        (replaceInOrder table.byteWords (Utf8.encode s)).2 +
          (replaceInOrder table.byteWords (Utf8.encode t)).2) := by
  have hboth : ∀ pair ∈ table.pairs, pair.old ≠ "" ∧ c ∉ pair.old.toList :=
    fun pair hpair => ⟨hne pair hpair, hc pair hpair⟩
  rw [replaceInOrder_encode hne s, replaceInOrder_encode hne t, ← Utf8.encode_singleton,
    ← Utf8.encode_append, ← Utf8.encode_append, replaceInOrder_encode hne,
    apply_append_singleton_append hboth, Utf8.encode_append, Utf8.encode_append]

-- The passes over the characters are the passes over the bytes, one by one.
theorem passes_encode {text last : String} {counts : List Nat}
    (h : Passes table.words text.toList last.toList counts) :
    Passes table.byteWords (Utf8.encode text) (Utf8.encode last) counts := by
  rw [byteWords_eq_coded, Utf8.encode_eq_flatMap, Utf8.encode_eq_flatMap]
  exact Utf8.synchronised.passes_flatMap (words_ne_nil hne) h

theorem exists_passes_encode (text : String) :
    ∃ counts, Passes table.words text.toList (table.apply text).content.toList counts ∧
      counts.sum = (table.apply text).replacements ∧
      ∀ last others, Passes table.byteWords (Utf8.encode text) last others ↔
        last = Utf8.encode (table.apply text).content ∧ others = counts := by
  obtain ⟨counts, hrun, hsum⟩ := exists_passes table.words text.toList
  rw [← content_apply] at hrun
  refine ⟨counts, hrun, hsum.symm, fun last others => ⟨fun h => ?_, ?_⟩⟩
  · exact (passes_encode hne hrun).unique h
  · rintro ⟨rfl, rfl⟩
    exact passes_encode hne hrun

end

end TokenMigration.Table
