import TokenMigration.Proofs.Migration.TextFile
import TokenMigration.Proofs.Table.Bytes

namespace TokenMigration

open Substitution

variable {σ : Type}

-- A file that holds a text is rewritten as if there were nothing but bytes.
theorem rewriteFile_of_bytes {table : Table} (hne : ∀ pair ∈ table.pairs, pair.old ≠ "")
    {session : Session σ} {path : Path} {place : Place} {rights : Rights} {bytes : Bytes}
    {text : String} (h : session.FileAt path place rights bytes) (hr : rights.read = true)
    (hd : Utf8.decode? bytes = some text) (dryRun : Bool) :
    (rewriteFile table dryRun path : StateM (Session σ) _) session =
      if (replaceInOrder table.byteWords bytes).1 = bytes then (.ok .unchanged, session)
      else if dryRun then
        (.ok (.wouldUpdate (replaceInOrder table.byteWords bytes).2), session)
      else if rights.write then
        (.ok (.updated (replaceInOrder table.byteWords bytes).2),
          session.written place.node (replaceInOrder table.byteWords bytes).1)
      else (.error (.fileOperation path .write .permissionDenied), session) := by
  obtain rfl := Utf8.decode?_eq_some_iff.mp hd
  rw [rewriteFile_of_text h hr, Table.replaceInOrder_encode hne]
  simp only [Utf8.encode_inj]

-- The passes over the characters of a text and those over its bytes are the same ones, cut by cut,
-- although the code takes one to four bytes for a character. What the old tokens do not name stays
-- as it stands. So a file is rewritten byte by byte, and a text it remains.
theorem rewriteFile_bytewise {table : Table} (hne : ∀ pair ∈ table.pairs, pair.old ≠ "") :
    (∀ text,
      replaceInOrder table.byteWords (Utf8.encode text) =
        (Utf8.encode (table.apply text).content, (table.apply text).replacements) ∧
      ∃ counts, Passes table.words text.toList (table.apply text).content.toList counts ∧
        counts.sum = (table.apply text).replacements ∧
        ∀ last others, Passes table.byteWords (Utf8.encode text) last others ↔
          last = Utf8.encode (table.apply text).content ∧ others = counts) ∧
    (∀ c : Char, (∀ pair ∈ table.pairs, c ∉ pair.old.toList) → ∀ s t : String,
      replaceInOrder table.byteWords (Utf8.encode s ++ String.utf8EncodeChar c ++ Utf8.encode t) =
        ((replaceInOrder table.byteWords (Utf8.encode s)).1 ++ String.utf8EncodeChar c ++
            (replaceInOrder table.byteWords (Utf8.encode t)).1,
          (replaceInOrder table.byteWords (Utf8.encode s)).2 +
            (replaceInOrder table.byteWords (Utf8.encode t)).2)) ∧
    ∀ (session : Session σ) (path : Path) (place : Place) (rights : Rights) (bytes : Bytes)
      (text : String), session.FileAt path place rights bytes → rights.read = true →
      Utf8.decode? bytes = some text →
      let replaced := replaceInOrder table.byteWords bytes
      Utf8.decode? replaced.1 = some (table.apply text).content ∧
      (session.written place.node replaced.1).tree.node? place.node =
        some (.file rights replaced.1) ∧
      ∀ dryRun, (rewriteFile table dryRun path : StateM (Session σ) _) session =
        if replaced.1 = bytes then (.ok .unchanged, session)
        else if dryRun then (.ok (.wouldUpdate replaced.2), session)
        else if rights.write then
          (.ok (.updated replaced.2), session.written place.node replaced.1)
        else (.error (.fileOperation path .write .permissionDenied), session) := by
  refine ⟨fun text => ⟨Table.replaceInOrder_encode hne text, Table.exists_passes_encode hne text⟩,
    fun c hc s t => Table.replaceInOrder_encode_append hne hc s t,
    fun session path place rights bytes text h hr hd =>
      ⟨?_, ?_, rewriteFile_of_bytes hne h hr hd⟩⟩
  · rw [Utf8.decode?_eq_some_iff.mp hd, Table.replaceInOrder_encode hne]
    exact Utf8.decode?_encode _
  · rw [h.node?_written, if_pos rfl]

-- A file "a" with a byte order mark, a line break of two bytes, a null and characters of one to four
-- bytes. The old token "é" begins with the same byte as "à" and "¬" ends with the same one as "€",
-- but neither "à" nor "€" is touched.
theorem rewriteFile_bytewise_mark :
    let table := Table.ofList [("é", "€€"), ("¬", "")]
    let bytes : Bytes := [0xEF, 0xBB, 0xBF, 0xC3, 0xA0, 0xC3, 0xA9, 0x0D, 0x0A, 0x00, 0xF0, 0x9F,
      0x98, 0x80, 0xE2, 0x82, 0xAC]
    let next : Bytes := [0xEF, 0xBB, 0xBF, 0xC3, 0xA0, 0xE2, 0x82, 0xAC, 0xE2, 0x82, 0xAC, 0x0D,
      0x0A, 0x00, 0xF0, 0x9F, 0x98, 0x80, 0xE2, 0x82, 0xAC]
    let tree : FileTree := ⟨[.directory .all [([97], 1)], .file .all bytes]⟩
    let session : Session Unit := { tree, current := [], stdout := () }
    (rewriteFile table false ⟨[97]⟩ : StateM (Session Unit) _) session =
        (.ok (.updated 1), session.written 1 next) ∧
      Utf8.decode? next = some "\uFEFFà€€\r\n\x00😀€" := by
  intro table bytes next tree session
  have hne : ∀ pair ∈ table.pairs, pair.old ≠ "" := by decide +kernel
  have hd : Utf8.decode? bytes = some "\uFEFFàé\r\n\x00😀€" := by decide +kernel
  have hreplaced : replaceInOrder table.byteWords bytes = (next, 1) := by decide +kernel
  have happly : (table.apply "\uFEFFàé\r\n\x00😀€").content = "\uFEFFà€€\r\n\x00😀€" := by
    decide +kernel
  have hfile : session.FileAt ⟨[97]⟩ [([97], 1)] .all bytes := ⟨rfl, rfl⟩
  obtain ⟨-, -, hbytes⟩ := rewriteFile_bytewise hne
  obtain ⟨htext, -, hrun⟩ := hbytes session ⟨[97]⟩ _ .all bytes _ hfile rfl hd
  rw [hreplaced, happly] at htext
  refine ⟨?_, htext⟩
  rw [hrun false, hreplaced]
  rfl

end TokenMigration
