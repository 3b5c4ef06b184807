import ElmAtlas.Proofs.Text.Octets
import Mathlib.Data.List.Lex
import Mathlib.Data.String.Basic

/-!
# The order of texts and of their octets

Texts are compared character by character.  The octets of a character are made such that
comparing octet by octet gives the same result: a longer row begins with a greater octet,
and rows of one length hold the digits of the character, the most significant first.
-/

namespace ElmAtlas.Octets

/-- The octets of a character number, as numbers. -/
inductive Row : ℕ → List ℕ → Prop where
  | one {number : ℕ} (small : number < 0x80) : Row number [number]
  | two {number : ℕ} (large : 0x80 ≤ number) (small : number < 0x800) :
      Row number [number / 64 + 192, number % 64 + 128]
  | three {number : ℕ} (large : 0x800 ≤ number) (small : number < 0x10000) :
      Row number [number / 4096 + 224, number / 64 % 64 + 128, number % 64 + 128]
  | four {number : ℕ} (large : 0x10000 ≤ number) (small : number < 0x110000) :
      Row number [number / 262144 + 240, number / 4096 % 64 + 128, number / 64 % 64 + 128,
        number % 64 + 128]

theorem row_utf8EncodeChar (character : Char) :
    Row character.toNat ((String.utf8EncodeChar character).map UInt8.toNat) := by
  have bound : character.val.toNat < 0x110000 := by
    rcases character.valid with low | high
    · exact Nat.lt_trans low (by decide)
    · exact high.2
  have octet {number : ℕ} (small : number < 256) : (UInt8.ofNat number).toNat = number := by
    rw [UInt8.toNat_ofNat', Nat.mod_eq_of_lt small]
  rw [Char.toNat, String.utf8EncodeChar]
  generalize character.val.toNat = number at bound ⊢
  -- The encoding reduces the leading digit, which is small already.
  split
  · rw [List.map_singleton, octet (by omega)]
    exact .one (by omega)
  · split
    · have leading : number / 64 % 32 = number / 64 := Nat.mod_eq_of_lt (by omega)
      simp only [List.map_cons, List.map_nil, leading]
      rw [octet (by omega), octet (by omega)]
      exact .two (by omega) (by omega)
    · split
      · have leading : number / 4096 % 16 = number / 4096 := Nat.mod_eq_of_lt (by omega)
        simp only [List.map_cons, List.map_nil, leading]
        rw [octet (by omega), octet (by omega), octet (by omega)]
        exact .three (by omega) (by omega)
      · have leading : number / 262144 % 8 = number / 262144 := Nat.mod_eq_of_lt (by omega)
        simp only [List.map_cons, List.map_nil, leading]
        rw [octet (by omega), octet (by omega), octet (by omega), octet (by omega)]
        exact .four (by omega) bound

/-- Of two rows the one of the greater number is greater, whatever stands behind them. -/
private theorem Row.append_lt_append {lower higher : ℕ} {left right : List ℕ}
    (first : Row lower left)
    (second : Row higher right) (below : lower < higher) (behind other : List ℕ) :
    left ++ behind < right ++ other := by
  cases first <;> cases second <;>
    simp only [List.cons_append, List.nil_append, List.cons_lt_cons_iff] <;> omega

/-- The octets of a text, as numbers. -/
def numbers (text : String) : List ℕ :=
  text.toUTF8.toList.map UInt8.toNat

private theorem numbers_ofList (characters : List Char) :
    numbers (String.ofList characters) =
      characters.flatMap fun character => (String.utf8EncodeChar character).map UInt8.toNat := by
  rw [numbers, toList_toUTF8_ofList, encoded, List.map_flatMap]

/-- Texts are ordered as their octets are. -/
theorem strictMono_numbers : StrictMono numbers := by
  intro left right below
  rw [String.lt_iff_toList_lt] at below
  rw [← String.ofList_toList (s := left), ← String.ofList_toList (s := right),
    numbers_ofList, numbers_ofList]
  generalize left.toList = front at below ⊢
  generalize right.toList = back at below ⊢
  induction front generalizing back with
  | nil =>
      cases back with
      | nil => exact (lt_irrefl _ below).elim
      | cons character back =>
          obtain ⟨octet, octets, row⟩ := List.exists_cons_of_ne_nil
            (String.utf8EncodeChar_ne_nil (c := character))
          rw [List.flatMap_nil, List.flatMap_cons, row]
          exact List.nil_lt_cons _ _
  | cons first front induction =>
      cases back with
      | nil => exact (List.not_lt_nil _ below).elim
      | cons second back =>
          rw [List.flatMap_cons, List.flatMap_cons]
          rcases List.cons_lt_cons_iff.1 below with lower | ⟨rfl, later⟩
          · exact (row_utf8EncodeChar first).append_lt_append (row_utf8EncodeChar second) lower _ _
          · exact List.append_left_lt (induction _ later)

end ElmAtlas.Octets
