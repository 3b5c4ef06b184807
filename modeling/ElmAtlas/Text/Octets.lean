/-!
# Octets

Programs exchange octets, not characters.  An octet is kept as the character of
the same number, so that text rules can be written on octets as well.  Octets
that are no UTF-8 text are still shown: each stretch that cannot be the beginning
of a character becomes one replacement character.
-/

namespace ElmAtlas

abbrev Octets := List Char

namespace Octets

def ofBytes (bytes : ByteArray) : Octets :=
  bytes.toList.map fun byte => Char.ofNat byte.toNat

def toBytes (octets : Octets) : ByteArray :=
  ⟨(octets.map fun octet => UInt8.ofNat octet.toNat).toArray⟩

def ofText (text : String) : Octets :=
  ofBytes text.toUTF8

def replacement : Char := '\uFFFD'

/-- The range of the octets that continue a character. -/
def continuation : Nat × Nat :=
  (0x80, 0xBF)

/-- The ranges of the octets that follow a leading octet; none when the octet
leads no character.  The first range leaves out overlong forms, surrogates and
numbers beyond the last character. -/
def ranges? (lead : Nat) : Option (List (Nat × Nat)) :=
  if lead ≤ 0x7F then some []
  else if lead < 0xC2 then none
  else if lead ≤ 0xDF then some [continuation]
  else if lead == 0xE0 then some [(0xA0, 0xBF), continuation]
  else if lead == 0xED then some [(0x80, 0x9F), continuation]
  else if lead ≤ 0xEF then some [continuation, continuation]
  else if lead == 0xF0 then some [(0x90, 0xBF), continuation, continuation]
  else if lead ≤ 0xF3 then some [continuation, continuation, continuation]
  else if lead == 0xF4 then some [(0x80, 0x8F), continuation, continuation]
  else none

/-- The longest run of octets that lies in the ranges, one octet to a range. -/
def fitting : List (Nat × Nat) → List Char → List Char
  | (low, high) :: ranges, octet :: octets =>
      if low ≤ octet.toNat && octet.toNat ≤ high then octet :: fitting ranges octets
      else []
  | _, _ => []

/-- The character with a leading octet and its continuation. -/
def assemble (lead : Nat) (tail : List Char) : Char :=
  let start := if tail.isEmpty then lead else lead % Nat.pow 2 (6 - tail.length)
  Char.ofNat (tail.foldl (fun code octet => 64 * code + octet.toNat % 64) start)

/-- The text of octets, with a replacement for every stretch that is no
character. -/
def decode : Octets → List Char
  | [] => []
  | lead :: rest =>
      match ranges? lead.toNat with
      | none => replacement :: decode rest
      | some ranges =>
          let tail := fitting ranges rest
          let character :=
            if tail.length == ranges.length then assemble lead.toNat tail else replacement
          character :: decode (rest.drop tail.length)
termination_by octets => octets.length
decreasing_by
  · simp
  · simp only [List.length_cons, List.length_drop]
    omega

def toText (octets : Octets) : String :=
  String.ofList (decode octets)

end Octets

end ElmAtlas
