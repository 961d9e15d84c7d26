/-!
# Texts as octet strings

A text is measured, compared and scanned through its UTF-8 octets. This module fixes that
view, so that a size limit, a hexadecimal reader and a base64 reader all count the same
thing. The number of octets is the size that the text itself reports, and the octets tell what
the text is.
-/

namespace BranchSync.Text

/-- The UTF-8 octets of a text, in order. -/
def octets (s : String) : List UInt8 :=
  s.toList.flatMap String.utf8EncodeChar

/-- The empty text has no octets. -/
theorem octets_empty : octets "" = [] := by
  simp [octets]

/-- The octets of a text are those that the text is stored as. -/
theorem toByteArray_octets (s : String) : (octets s).toByteArray = s.toByteArray := by
  rw [← String.ofList_toList (s := s), String.toByteArray_ofList, String.ofList_toList]
  rfl

/-- There are as many octets as the size that the text reports. -/
theorem length_octets (s : String) : (octets s).length = s.utf8ByteSize := by
  rw [← String.size_toByteArray, ← toByteArray_octets, List.size_toByteArray]

/-- The text whose octets are given, when they are well-formed UTF-8. -/
def ofOctets? (bytes : List UInt8) : Option String :=
  String.fromUTF8? ⟨bytes.toArray⟩

/-- A text is read back from its octets. -/
theorem ofOctets?_octets (s : String) : ofOctets? (octets s) = some s := by
  have hbytes : (⟨(octets s).toArray⟩ : ByteArray) = s.toByteArray := by
    rw [← toByteArray_octets]
    exact ByteArray.ext List.data_toByteArray.symm
  rw [ofOctets?, hbytes]
  exact dif_pos s.isValidUTF8

/-- The blanks that may be scattered in an encoded payload: space, tab, newline, form feed
and carriage return. -/
def isBlank (b : UInt8) : Bool :=
  b == 32 || b == 9 || b == 10 || b == 12 || b == 13

end BranchSync.Text
