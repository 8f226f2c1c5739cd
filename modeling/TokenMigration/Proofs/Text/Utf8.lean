import TokenMigration.Proofs.Substitution.Coding
import TokenMigration.Text.Utf8

namespace TokenMigration.Utf8

open Substitution

theorem encode_eq_flatMap (text : String) :
    encode text = text.toList.flatMap String.utf8EncodeChar := by
  rw [← encode_ofList, String.ofList_toList]

theorem encode_append (s t : String) : encode (s ++ t) = encode s ++ encode t := by
  simp [encode_eq_flatMap]

theorem encode_singleton (c : Char) : encode (String.singleton c) = String.utf8EncodeChar c := by
  simp [encode_eq_flatMap]

theorem encode_inj {s t : String} : encode s = encode t ↔ s = t := by
  constructor
  · intro h
    have hs : decode? (encode s) = some s := decode?_eq_some_iff.mpr rfl
    exact Option.some.inj (hs.symm.trans (decode?_eq_some_iff.mpr h))
  · rintro rfl
    rfl

theorem isFirstByte_of_utf8EncodeChar {c : Char} {byte : UInt8} {rest : Bytes}
    (h : String.utf8EncodeChar c = byte :: rest) : byte.IsUTF8FirstByte := by
  have hfirst := UInt8.isUTF8FirstByte_getElem_zero_utf8EncodeChar (c := c)
  simpa only [h, List.getElem_cons_zero] using hfirst

theorem not_isFirstByte_of_mem_tail {c : Char} {byte : UInt8}
    (h : byte ∈ (String.utf8EncodeChar c).tail) : ¬ byte.IsUTF8FirstByte := by
  obtain ⟨i, hi, rfl⟩ := List.mem_iff_getElem.mp h
  rw [List.getElem_tail, UInt8.isUTF8FirstByte_getElem_utf8EncodeChar]
  omega

-- The first byte of a character is none of those that go on with one.
theorem synchronised : Synchronised String.utf8EncodeChar where
  ne_nil _ := String.utf8EncodeChar_ne_nil
  heads c d h := by
    obtain ⟨rest, hrest⟩ := h
    have hd := front?_utf8EncodeChar_append d []
    rw [List.append_nil, ← hrest, front?_utf8EncodeChar_append] at hd
    exact Option.some.inj hd
  tails c d := by
    rintro ⟨place, hsuffix, hne, hc⟩
    obtain ⟨byte, rest, rfl⟩ := List.exists_cons_of_ne_nil hne
    obtain ⟨first, others, hcode⟩ := List.exists_cons_of_ne_nil (@String.utf8EncodeChar_ne_nil c)
    have hbyte : byte = first := by
      rw [hcode] at hc
      rcases hc with hp | hp
      · exact (List.cons_prefix_cons.mp hp).1
      · exact (List.cons_prefix_cons.mp hp).1.symm
    subst hbyte
    exact not_isFirstByte_of_mem_tail (hsuffix.subset List.mem_cons_self)
      (isFirstByte_of_utf8EncodeChar hcode)

end TokenMigration.Utf8
