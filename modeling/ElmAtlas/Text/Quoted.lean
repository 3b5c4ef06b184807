import ElmAtlas.Text.Hidden

/-!
# Quoted text for messages

A text between double quotes in which a reader sees every character: quotes and
backslashes are escaped and hidden characters are written by their code.
-/

namespace ElmAtlas.Text

/-- A number in hexadecimal with small letters and no leading zero. -/
def hexadecimal (number : Nat) : List Char :=
  Nat.toDigits 16 number

def quoteCharacter (character : Char) : List Char :=
  match character with
  | '\x00' => ['\\', '0']
  | '\t' => ['\\', 't']
  | '\r' => ['\\', 'r']
  | '\n' => ['\\', 'n']
  | '"' => ['\\', '"']
  | '\\' => ['\\', '\\']
  | character =>
      if isHidden character then
        ['\\', 'u', '\x7b'] ++ hexadecimal character.toNat ++ ['\x7d']
      else
        [character]

def quote (text : String) : String :=
  String.ofList (['"'] ++ text.toList.flatMap quoteCharacter ++ ['"'])

end ElmAtlas.Text
