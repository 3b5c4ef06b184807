import ElmAtlas.Text.Octets
import Mathlib.Data.List.Basic

/-!
# The octets of characters

A text is told to a program by its octets.  A character below 128 is one octet, the
same as the character itself; every other character is a row of octets from 128 on.
-/

namespace ElmAtlas.Octets

private theorem toList_loop (bytes : ByteArray) (index : Nat) (reversed : List UInt8) :
    ByteArray.toList.loop bytes index reversed =
      reversed.reverse ++ bytes.data.toList.drop index := by
  fun_induction ByteArray.toList.loop bytes index reversed with
  | case1 index reversed inside induction =>
      have present : index < bytes.data.toList.length := by simpa using inside
      rw [induction, List.reverse_cons, List.append_assoc, List.drop_eq_getElem_cons present]
      simp [ByteArray.get!, inside]
  | case2 index reversed outside =>
      have beyond : bytes.data.toList.length ≤ index := by simpa using outside
      rw [List.drop_eq_nil_of_le beyond, List.append_nil]

private theorem toList_bytes (bytes : ByteArray) : bytes.toList = bytes.data.toList := by
  rw [ByteArray.toList, toList_loop]
  rfl

/-- The bytes of characters. -/
def encoded (characters : List Char) : List UInt8 :=
  characters.flatMap String.utf8EncodeChar

theorem toUTF8_ofList (characters : List Char) :
    (String.ofList characters).toUTF8 = (encoded characters).toByteArray :=
  rfl

theorem toList_toUTF8_ofList (characters : List Char) :
    (String.ofList characters).toUTF8.toList = encoded characters := by
  rw [toList_bytes, toUTF8_ofList, List.toList_data_toByteArray]

theorem fromUTF8?_encoded (characters : List Char) :
    String.fromUTF8? (encoded characters).toByteArray = some (String.ofList characters) := by
  have valid := (String.ofList characters).isValidUTF8
  rw [← toUTF8_ofList]
  unfold String.fromUTF8?
  rw [String.toUTF8_eq_toByteArray, dif_pos valid]
  rfl

/-- The characters of bytes. -/
def ofEncoded (bytes : List UInt8) : Octets :=
  bytes.map fun byte => Char.ofNat byte.toNat

/-- The octets of characters. -/
def ofCharacters (characters : List Char) : Octets :=
  ofEncoded (encoded characters)

theorem ofCharacters_cons (character : Char) (characters : List Char) :
    ofCharacters (character :: characters) =
      ofEncoded (String.utf8EncodeChar character) ++ ofCharacters characters := by
  simp [ofCharacters, ofEncoded, encoded]

theorem utf8EncodeChar_of_lt {character : Char} (small : character.toNat < 128) :
    String.utf8EncodeChar character = [UInt8.ofNat character.toNat] := by
  rw [String.utf8EncodeChar, if_pos]
  · rfl
  · exact Nat.le_of_lt_succ small

theorem ofCharacters_cons_of_lt {character : Char} (small : character.toNat < 128)
    (characters : List Char) :
    ofCharacters (character :: characters) = character :: ofCharacters characters := by
  have wrapped : (UInt8.ofNat character.toNat).toNat = character.toNat := by
    rw [UInt8.toNat_ofNat', Nat.mod_eq_of_lt]
    omega
  rw [ofCharacters_cons, utf8EncodeChar_of_lt small, ofEncoded, List.map_singleton, wrapped,
    Char.ofNat_toNat, List.singleton_append]

theorem ofCharacters_append_of_lt {front : List Char}
    (small : ∀ character ∈ front, character.toNat < 128) (characters : List Char) :
    ofCharacters (front ++ characters) = front ++ ofCharacters characters := by
  induction front with
  | nil => rfl
  | cons character front induction =>
      obtain ⟨first, rest⟩ := List.forall_mem_cons.1 small
      rw [List.cons_append, ofCharacters_cons_of_lt first, induction rest, List.cons_append]

/-- The octets of a character beyond 127 are beyond 127 as well. -/
theorem le_of_mem_utf8EncodeChar {character : Char} (large : 128 ≤ character.toNat)
    {byte : UInt8} (member : byte ∈ String.utf8EncodeChar character) : 128 ≤ byte.toNat := by
  have beyond : ¬character.val.toNat ≤ 127 := Nat.not_le.2 large
  have bound (number : Nat) (least : 128 ≤ number) (most : number < 256) :
      128 ≤ (UInt8.ofNat number).toNat := by
    rw [UInt8.toNat_ofNat', Nat.mod_eq_of_lt most]
    exact least
  rw [String.utf8EncodeChar] at member
  simp only [beyond, if_false] at member
  split at member
  · simp only [List.mem_cons, List.not_mem_nil, or_false] at member
    rcases member with rfl | rfl <;> exact bound _ (by omega) (by omega)
  · split at member
    · simp only [List.mem_cons, List.not_mem_nil, or_false] at member
      rcases member with rfl | rfl | rfl <;> exact bound _ (by omega) (by omega)
    · simp only [List.mem_cons, List.not_mem_nil, or_false] at member
      rcases member with rfl | rfl | rfl | rfl <;> exact bound _ (by omega) (by omega)

theorem toNat_ofNat_byte (byte : UInt8) : (Char.ofNat byte.toNat).toNat = byte.toNat := by
  have small : byte.toNat < 256 := byte.toNat_lt
  have valid : byte.toNat.isValidChar := .inl (by omega)
  rw [Char.ofNat, dif_pos valid]
  rfl

theorem toUInt8_ofNat_byte (byte : UInt8) : (Char.ofNat byte.toNat).toUInt8 = byte := by
  have same : (Char.ofNat byte.toNat).val.toNat = byte.toNat := toNat_ofNat_byte byte
  apply UInt8.toNat_inj.1
  rw [Char.toUInt8, UInt32.toNat_toUInt8, same]
  exact Nat.mod_eq_of_lt byte.toNat_lt

theorem length_le_length_ofCharacters (characters : List Char) :
    characters.length ≤ (ofCharacters characters).length := by
  induction characters with
  | nil => exact Nat.le_refl 0
  | cons character characters induction =>
      have some := List.length_pos_of_ne_nil (String.utf8EncodeChar_ne_nil (c := character))
      rw [ofCharacters_cons, List.length_append, ofEncoded, List.length_map, List.length_cons]
      omega

section FirstBytes

variable {character : Char}

private theorem utf8Size_eq_one_iff : character.utf8Size = 1 ↔ character.toNat < 128 := by
  rw [Char.utf8Size_eq_one_iff, UInt32.le_iff_toNat_le]
  exact Nat.lt_succ_iff.symm

/-- A text begins with the byte of a small character only if it begins with the character. -/
theorem head?_encoded_eq_some (small : character.toNat < 128) (characters : List Char) :
    (encoded characters).head? = some (UInt8.ofNat character.toNat) ↔
      characters.head? = some character := by
  have wrapped {other : Char} (otherSmall : other.toNat < 128) :
      (UInt8.ofNat other.toNat).toNat = other.toNat :=
    UInt8.toNat_ofNat_of_lt' (Nat.lt_trans otherSmall (by decide))
  cases characters with
  | nil => simp [encoded]
  | cons first rest =>
      rw [List.head?_cons, Option.some_inj]
      by_cases firstSmall : first.toNat < 128
      · rw [encoded, List.flatMap_cons, utf8EncodeChar_of_lt firstSmall, List.singleton_append,
          List.head?_cons, Option.some_inj, ← UInt8.toNat_inj, wrapped firstSmall, wrapped small,
          Char.toNat_inj]
      · constructor
        · intro leads
          rw [encoded, List.flatMap_cons,
            List.head?_append_of_ne_nil _ String.utf8EncodeChar_ne_nil] at leads
          have large := le_of_mem_utf8EncodeChar (Nat.le_of_not_lt firstSmall)
            (List.mem_of_mem_head? leads)
          rw [wrapped small] at large
          omega
        · intro same
          rw [same] at firstSmall
          exact absurd small firstSmall

/-- A small character is the second byte exactly if it is the second character and the first
one is small. -/
theorem second_encoded_eq_some (small : character.toNat < 128) (first : Char)
    (rest : List Char) :
    (encoded (first :: rest))[1]? = some (UInt8.ofNat character.toNat) ↔
      first.utf8Size = 1 ∧ rest.head? = some character := by
  rw [utf8Size_eq_one_iff, encoded, List.flatMap_cons]
  by_cases firstSmall : first.toNat < 128
  · rw [utf8EncodeChar_of_lt firstSmall, List.singleton_append, List.getElem?_cons_succ,
      ← List.head?_eq_getElem?, ← encoded, head?_encoded_eq_some small]
    simp [firstSmall]
  · have long : 1 < (String.utf8EncodeChar first).length := by
      have size := String.length_utf8EncodeChar first
      have positive := Char.utf8Size_pos first
      have several := mt utf8Size_eq_one_iff.1 firstSmall
      omega
    constructor
    · intro second
      rw [List.getElem?_append_left long] at second
      have large := le_of_mem_utf8EncodeChar (Nat.le_of_not_lt firstSmall)
        (List.mem_of_getElem? second)
      rw [UInt8.toNat_ofNat_of_lt' (Nat.lt_trans small (by decide))] at large
      omega
    · intro both
      exact absurd both.1 firstSmall

end FirstBytes

end ElmAtlas.Octets
