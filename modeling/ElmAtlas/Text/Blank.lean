/-!
# Blank characters, trimming and splitting

Every text rule of the library works on the list of characters of a text.  This
module fixes which characters are blank and how a text is cut: `split` keeps
the empty pieces between neighbouring separators, `words` drops them.
-/

namespace ElmAtlas.Text

/-- The characters with the Unicode property `White_Space`. -/
def isBlank (character : Char) : Bool :=
  let code := character.toNat
  (0x09 ≤ code && code ≤ 0x0D) || code == 0x20 || code == 0x85 || code == 0xA0 ||
    code == 0x1680 || (0x2000 ≤ code && code ≤ 0x200A) || code == 0x2028 ||
    code == 0x2029 || code == 0x202F || code == 0x205F || code == 0x3000

def trimStart (characters : List Char) : List Char :=
  characters.dropWhile isBlank

def trimEnd (characters : List Char) : List Char :=
  (characters.reverse.dropWhile isBlank).reverse

/-- Removes the blank characters at both ends. -/
def trim (characters : List Char) : List Char :=
  trimEnd (trimStart characters)

/-- Cuts at every separator.  Neighbouring separators leave an empty piece
between them, so there is always one piece more than there are separators. -/
def split (separates : Char → Bool) : List Char → List (List Char)
  | [] => [[]]
  | character :: rest =>
      if separates character then
        [] :: split separates rest
      else
        match split separates rest with
        | [] => [[character]]
        | piece :: pieces => (character :: piece) :: pieces

/-- The pieces between separators that hold at least one character. -/
def splitNonempty (separates : Char → Bool) (characters : List Char) :
    List (List Char) :=
  (split separates characters).filter (fun piece => !piece.isEmpty)

/-- The maximal runs of characters that are not blank. -/
def words (characters : List Char) : List (List Char) :=
  splitNonempty isBlank characters

def join (separator : List Char) : List (List Char) → List Char
  | [] => []
  | [piece] => piece
  | piece :: next :: pieces => piece ++ separator ++ join separator (next :: pieces)

/-- The characters before and after the first separator, if there is one. -/
def splitOnce (separator : Char) : List Char → Option (List Char × List Char)
  | [] => none
  | character :: rest =>
      if character = separator then
        some ([], rest)
      else
        (splitOnce separator rest).map fun (before, after) => (character :: before, after)

/-- The lines of a text: cut at line feeds, without a carriage return at the
end of a line and without an empty last line. -/
def lines (characters : List Char) : List (List Char) :=
  let pieces := split (· == '\n') characters
  let complete := pieces.dropLast.map fun line =>
    if line.getLast? = some '\r' then line.dropLast else line
  match pieces.getLast? with
  | some (character :: rest) => complete ++ [character :: rest]
  | _ => complete

def trimmed (text : String) : String :=
  String.ofList (trim text.toList)

/-- Whether a text holds blank characters only. -/
def isBlankText (text : String) : Bool :=
  text.toList.all isBlank

/-- Fills a text up with spaces on the right until it has `width` characters. -/
def padRight (width : Nat) (text : String) : String :=
  text ++ String.ofList (List.replicate (width - text.length) ' ')

end ElmAtlas.Text
