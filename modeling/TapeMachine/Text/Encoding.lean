/-
Text as bytes in UTF-8.
-/
namespace TapeMachine.Text

def decode? (bytes : List UInt8) : Option (List Char) :=
  bytes.toByteArray.utf8Decode?.map (·.toList)

def encode (s : List Char) : List UInt8 := s.flatMap String.utf8EncodeChar

def byteLength (s : List Char) : Nat := (encode s).length

theorem decode?_encode (s : List Char) : decode? (encode s) = some s := by
  have read : s.utf8Encode.utf8Decode? = some s.toArray := List.utf8Decode?_utf8Encode
  exact congrArg (Option.map Array.toList) read

theorem decode?_eq_some_iff {bytes : List UInt8} {s : List Char} :
    decode? bytes = some s ↔ bytes = encode s := by
  constructor
  · intro read
    obtain ⟨chars, decoded, rfl⟩ := Option.map_eq_some_iff.mp read
    have valid : bytes.toByteArray.utf8Decode?.isSome = true := by rw [decoded]; rfl
    have whole : (bytes.toByteArray.utf8Decode?.get valid).toList.utf8Encode = bytes.toByteArray :=
      ByteArray.utf8Encode_get_utf8Decode?
    simp only [decoded, Option.get_some] at whole
    exact List.toByteArray_inj.mp whole.symm
  · rintro rfl
    exact decode?_encode s

theorem encode_append (s t : List Char) : encode (s ++ t) = encode s ++ encode t :=
  List.flatMap_append

def invalidEncoding : String := "stream did not contain valid UTF-8"

end TapeMachine.Text
