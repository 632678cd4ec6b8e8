import Mathlib.Tactic

/-! Text as the bytes it travels as: ASCII, UTF-8, and the reading of bytes that need
not be UTF-8. -/
namespace MoltenPour.Bytes

abbrev Text := List UInt8

def ascii (text : String) : Text := text.toList.map fun c => UInt8.ofNat c.toNat

def utf8 (text : String) : Text := text.toByteArray.data.toList

/- utf8.DecodeRune until the end: a byte that opens no character is U+FFFD by itself. -/
def runes : Text → List Char
  | [] => []
  | b::rest =>
    match (b::rest).toByteArray.utf8DecodeChar? 0 with
    | some c => c::runes (rest.drop (c.utf8Size - 1))
    | none => Char.ofNat 0xFFFD::runes rest
termination_by bytes => bytes.length

theorem utf8Inj : Function.Injective utf8 := by
  intro a b same
  have bytes : a.toByteArray = b.toByteArray := ByteArray.ext (Array.toList_inj.mp same)
  exact String.toByteArray_inj.mp bytes

theorem utf8Encoded (text : List Char) :
    utf8 (String.ofList text) = text.flatMap String.utf8EncodeChar := by
  rw [utf8,String.toByteArray_ofList,List.utf8Encode,List.toList_data_toByteArray]

theorem utf8Length (text : List Char) : (utf8 (String.ofList text)).length ≤ 4 * text.length := by
  rw [utf8Encoded]
  induction text with
  | nil => simp
  | cons c rest ih =>
    have width := c.utf8Size_le_four
    rw [List.flatMap_cons,List.length_append,String.length_utf8EncodeChar,List.length_cons]
    omega

theorem runesEncoded (c : Char) (rest : Text) :
    runes (String.utf8EncodeChar c ++ rest) = c::runes rest := by
  have some_byte := c.utf8Size_pos
  have width := String.length_utf8EncodeChar c
  have read : (String.utf8EncodeChar c ++ rest).toByteArray.utf8DecodeChar? 0 = some c := by
    rw [List.toByteArray_append,ByteArray.utf8DecodeChar?_utf8EncodeChar_append]
  generalize String.utf8EncodeChar c = bytes at width read ⊢
  cases bytes with
  | nil =>
    rw [List.length_nil] at width
    omega
  | cons b more =>
    have after : (more ++ rest).drop (c.utf8Size - 1) = rest := by
      rw [← width]
      exact List.drop_left' rfl
    rw [List.cons_append] at read ⊢
    rw [runes,read]
    dsimp only
    rw [after]

theorem runesRead (text : List Char) : runes (utf8 (String.ofList text)) = text := by
  rw [utf8Encoded]
  induction text with
  | nil =>
    rw [List.flatMap_nil,runes]
  | cons c rest ih => rw [List.flatMap_cons,runesEncoded,ih]

end MoltenPour.Bytes
