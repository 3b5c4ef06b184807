import ElmAtlas.Json.Decode
import ElmAtlas.Proofs.Text.Octets
import Mathlib.Data.Bool.AllAny
import Mathlib.Data.Nat.Init

/-!
# The grammar of documents

The grammar is stated for texts, as a relation between a text, the document it begins
with and the rest behind that document.  The reader, which sees octets only, follows it:
it reads every document that the grammar spells, and it stops where the document ends.
Escaped surrogates are spelled in pairs only.
-/

namespace ElmAtlas.Json

def blanks : List Char :=
  [' ', '\n', '\t', '\r']

/-- A text that goes on with the rest after some blanks. -/
def Spaces (text rest : List Char) : Prop :=
  ∃ spaces : List Char, (∀ space ∈ spaces, space ∈ blanks) ∧ text = spaces ++ rest

structure IsDigits (digits : List Char) : Prop where
  nonempty : digits ≠ []
  digit : ∀ character ∈ digits, character.isDigit = true

namespace Numeral

inductive WritesFraction : List Char → List Char → Prop where
  | absent : WritesFraction [] []
  | present {digits : List Char} (isDigits : IsDigits digits) :
      WritesFraction digits ('.' :: digits)

inductive WritesExponent : Option (Bool × List Char) → List Char → Prop where
  | absent : WritesExponent none []
  | present {mark : Char} {sign digits : List Char} {down : Bool} (isMark : mark ∈ ['e', 'E'])
      (signed : (sign, down) ∈ [([], false), (['+'], false), (['-'], true)])
      (isDigits : IsDigits digits) :
      WritesExponent (some (down, digits)) (mark :: (sign ++ digits))

/-- The texts of a numeral.  Zero may begin an integer only if it is all of it. -/
inductive Writes : Numeral → List Char → Prop where
  | intro {isNegative : Bool} {integer fraction fractionText exponentText : List Char}
      {exponent : Option (Bool × List Char)} (isDigits : IsDigits integer)
      (leading : integer.head? = some '0' → integer = ['0'])
      (fractionWritten : WritesFraction fraction fractionText)
      (exponentWritten : WritesExponent exponent exponentText) :
      Writes ⟨isNegative, integer, fraction, exponent⟩
        ((if isNegative then ['-'] else []) ++ (integer ++ (fractionText ++ exponentText)))

end Numeral

/-- The letters of short escapes and what they stand for. -/
def shortEscapes : List (Char × Char) :=
  [('"', '"'), ('\\', '\\'), ('/', '/'), ('b', '\x08'), ('f', '\x0c'), ('n', '\n'),
    ('r', '\r'), ('t', '\t')]

def IsHexDigit (character : Char) (value : Nat) : Prop :=
  (value < 10 ∧ character.toNat = 48 + value) ∨
    (10 ≤ value ∧ value < 16 ∧
      (character.toNat = 87 + value ∨ character.toNat = 55 + value))

/-- A unit of sixteen bits, in four hexadecimal digits. -/
inductive WritesUnit : Nat → List Char → Prop where
  | intro {first second third fourth : Char} {a b c d : Nat} (firstDigit : IsHexDigit first a)
      (secondDigit : IsHexDigit second b) (thirdDigit : IsHexDigit third c)
      (fourthDigit : IsHexDigit fourth d) :
      WritesUnit (4096 * a + 256 * b + 16 * c + d) [first, second, third, fourth]

/-- A text that begins with the inside of a quotation and its closing quote. -/
inductive SpellsText : List Char → List Char → List Char → Prop where
  | close (rest : List Char) : SpellsText ('"' :: rest) [] rest
  | plain {character : Char} {text value rest : List Char} (noQuote : character ≠ '"')
      (noEscape : character ≠ '\\') (printed : 0x20 ≤ character.toNat)
      (spells : SpellsText text value rest) :
      SpellsText (character :: text) (character :: value) rest
  | short {letter character : Char} {text value rest : List Char}
      (listed : (letter, character) ∈ shortEscapes) (spells : SpellsText text value rest) :
      SpellsText ('\\' :: letter :: text) (character :: value) rest
  | unit {digits text value rest : List Char} {unit : Nat} (written : WritesUnit unit digits)
      (noSurrogate : unit < 0xD800 ∨ 0xDFFF < unit) (spells : SpellsText text value rest) :
      SpellsText ('\\' :: 'u' :: (digits ++ text)) (Char.ofNat unit :: value) rest
  | pair {highDigits lowDigits text value rest : List Char} {high low : Nat}
      (highWritten : WritesUnit high highDigits) (isHigh : 0xD800 ≤ high ∧ high ≤ 0xDBFF)
      (lowWritten : WritesUnit low lowDigits) (isLow : 0xDC00 ≤ low ∧ low ≤ 0xDFFF)
      (spells : SpellsText text value rest) :
      SpellsText ('\\' :: 'u' :: (highDigits ++ '\\' :: 'u' :: (lowDigits ++ text)))
        (Char.ofNat (0x10000 + (high - 0xD800) * 0x400 + (low - 0xDC00)) :: value) rest

mutual

/-- A text that begins with a document. -/
inductive Spells : List Char → Document → List Char → Prop where
  | null (rest : List Char) : Spells ('n' :: 'u' :: 'l' :: 'l' :: rest) .null rest
  | yes (rest : List Char) : Spells ('t' :: 'r' :: 'u' :: 'e' :: rest) (.boolean true) rest
  | no (rest : List Char) :
      Spells ('f' :: 'a' :: 'l' :: 's' :: 'e' :: rest) (.boolean false) rest
  | number {numeral : Numeral} {text : List Char} (written : numeral.Writes text)
      (rest : List Char) : Spells (text ++ rest) (.number numeral.number?) rest
  | text {behind value rest : List Char} (spells : SpellsText behind value rest) :
      Spells ('"' :: behind) (.text (some (String.ofList value))) rest
  | emptyArray {behind rest : List Char} (closes : Spaces behind (']' :: rest)) :
      Spells ('[' :: behind) (.array []) rest
  | array {behind rest : List Char} {items : List Document}
      (spells : SpellsItems behind items rest) : Spells ('[' :: behind) (.array items) rest
  | emptyObject {behind rest : List Char} (closes : Spaces behind ('}' :: rest)) :
      Spells ('{' :: behind) (.object []) rest
  | object {behind rest : List Char} {members : List (Option String × Document)}
      (spells : SpellsMembers behind members rest) :
      Spells ('{' :: behind) (.object members) rest

/-- Items up to the bracket behind them. -/
inductive SpellsItems : List Char → List Document → List Char → Prop where
  | last {text start behind rest : List Char} {item : Document} (front : Spaces text start)
      (spells : Spells start item behind) (closes : Spaces behind (']' :: rest)) :
      SpellsItems text [item] rest
  | more {text start behind next rest : List Char} {item : Document} {items : List Document}
      (front : Spaces text start) (spells : Spells start item behind)
      (separated : Spaces behind (',' :: next)) (others : SpellsItems next items rest) :
      SpellsItems text (item :: items) rest

inductive SpellsMember : List Char → Option String × Document → List Char → Prop where
  | intro {text quoted key colon value start rest : List Char} {document : Document}
      (front : Spaces text ('"' :: quoted)) (named : SpellsText quoted key colon)
      (separated : Spaces colon (':' :: value)) (between : Spaces value start)
      (spells : Spells start document rest) :
      SpellsMember text (some (String.ofList key), document) rest

inductive SpellsMembers : List Char → List (Option String × Document) → List Char → Prop where
  | last {text behind rest : List Char} {member : Option String × Document}
      (spells : SpellsMember text member behind) (closes : Spaces behind ('}' :: rest)) :
      SpellsMembers text [member] rest
  | more {text behind next rest : List Char} {member : Option String × Document}
      {members : List (Option String × Document)} (spells : SpellsMember text member behind)
      (separated : Spaces behind (',' :: next)) (others : SpellsMembers next members rest) :
      SpellsMembers text (member :: members) rest

end

/-- A text that is a document, with spaces around it. -/
def IsDocument (text : List Char) (document : Document) : Prop :=
  ∃ start behind, Spaces text start ∧ Spells start document behind ∧ Spaces behind []

theorem Spaces.refl (text : List Char) : Spaces text text :=
  ⟨[], by simp, rfl⟩

/-- A text between quotes, in front of what comes next. -/
def quoted (content : String) (rest : List Char) : List Char :=
  '"' :: (content.toList ++ '"' :: rest)

/-- No character of the text has to be escaped. -/
def IsPlain (content : String) : Prop :=
  ∀ character ∈ content.toList, character ≠ '"' ∧ character ≠ '\\' ∧ 0x20 ≤ character.toNat

instance (content : String) : Decidable (IsPlain content) :=
  decidable_of_iff _ List.all_iff_forall_prop

theorem SpellsText.of_isPlain {content : String} (plain : IsPlain content) (rest : List Char) :
    SpellsText (content.toList ++ '"' :: rest) content.toList rest := by
  have spells : ∀ characters : List Char,
      (∀ character ∈ characters, character ≠ '"' ∧ character ≠ '\\' ∧ 0x20 ≤ character.toNat) →
        SpellsText (characters ++ '"' :: rest) characters rest := by
    intro characters
    induction characters with
    | nil => exact fun _ => .close rest
    | cons character characters induction =>
        intro plain
        obtain ⟨⟨noQuote, noEscape, printed⟩, others⟩ := List.forall_mem_cons.1 plain
        exact .plain noQuote noEscape printed (induction others)
  exact spells content.toList plain

theorem spells_quoted {content : String} (plain : IsPlain content) (rest : List Char) :
    Spells (quoted content rest) (.text (some content)) rest := by
  have spells := Spells.text (SpellsText.of_isPlain plain rest)
  rwa [String.ofList_toList] at spells

theorem spellsMember_quoted {key : String} (plain : IsPlain key) {value rest : List Char}
    {document : Document} (spells : Spells value document rest) :
    SpellsMember (quoted key (':' :: value)) (some key, document) rest := by
  have member := SpellsMember.intro (.refl _) (SpellsText.of_isPlain plain (':' :: value))
    (.refl _) (.refl _) spells
  rwa [String.ofList_toList] at member

theorem spellsMembers_quoted {key : String} (plain : IsPlain key) {value rest : List Char}
    {document : Document} (spells : Spells value document ('}' :: rest)) :
    SpellsMembers (quoted key (':' :: value)) [(some key, document)] rest :=
  .last (spellsMember_quoted plain spells) (.refl _)

theorem spellsMembers_quoted_cons {key : String} (plain : IsPlain key)
    {value next rest : List Char} {document : Document}
    {members : List (Option String × Document)} (spells : Spells value document (',' :: next))
    (others : SpellsMembers next members rest) :
    SpellsMembers (quoted key (':' :: value)) ((some key, document) :: members) rest :=
  .more (spellsMember_quoted plain spells) (.refl _) others

namespace Reader

private theorem isSpace_of_mem_blanks :
    ∀ space ∈ blanks, isSpace space = true ∧ space.toNat < 128 :=
  List.all_iff_forall_prop.1 (by decide)

private theorem skipSpace_of_spaces {text rest : List Char} (spaces : Spaces text rest) :
    skipSpace (Octets.ofCharacters text) = skipSpace (Octets.ofCharacters rest) := by
  obtain ⟨blank, isBlank, rfl⟩ := spaces
  induction blank with
  | nil => rfl
  | cons space blank induction =>
      obtain ⟨first, others⟩ := List.forall_mem_cons.1 isBlank
      obtain ⟨skipped, small⟩ := isSpace_of_mem_blanks space first
      rw [List.cons_append, Octets.ofCharacters_cons_of_lt small, skipSpace,
        List.dropWhile_cons_of_pos skipped]
      exact induction others

private theorem skipSpace_cons {character : Char} (small : character.toNat < 128)
    (solid : isSpace character = false) (rest : List Char) :
    skipSpace (Octets.ofCharacters (character :: rest)) =
      character :: Octets.ofCharacters rest := by
  rw [Octets.ofCharacters_cons_of_lt small, skipSpace,
    List.dropWhile_cons_of_neg (by simp [solid])]

/-- What may stand behind a document. -/
def Follows (rest : List Char) : Prop :=
  ∀ character ∈ rest.head?, character ∈ blanks ++ [',', ']', '}']

theorem Follows.of_spaces {rest behind : List Char} {mark : Char}
    (spaces : Spaces rest (mark :: behind)) (closes : mark ∈ [',', ']', '}']) :
    Follows rest := by
  obtain ⟨blank, isBlank, rfl⟩ := spaces
  intro character first
  cases blank with
  | nil =>
      obtain rfl : mark = character := by simpa using first
      exact List.mem_append_right _ closes
  | cons space blank =>
      obtain rfl : space = character := by simpa using first
      exact List.mem_append_left _ (isBlank space List.mem_cons_self)

theorem Follows.ofCharacters {rest : List Char} (follows : Follows rest) :
    Follows (Octets.ofCharacters rest) := by
  cases rest with
  | nil => exact follows
  | cons character rest =>
      have listed := follows character rfl
      have small : character.toNat < 128 := by
        have all : ∀ other ∈ blanks ++ [',', ']', '}'], other.toNat < 128 :=
          List.all_iff_forall_prop.1 (by decide)
        exact all character listed
      rw [Octets.ofCharacters_cons_of_lt small]
      exact follows

/-- A numeral does not go on behind a document. -/
theorem Follows.stops {rest : List Char} (follows : Follows rest) :
    ∀ character ∈ rest.head?, character.isDigit = false ∧ character ≠ '.' ∧
      character ≠ 'e' ∧ character ≠ 'E' := by
  have all : ∀ character ∈ blanks ++ [',', ']', '}'], character.isDigit = false ∧
      character ≠ '.' ∧ character ≠ 'e' ∧ character ≠ 'E' :=
    List.all_iff_forall_prop.1 (by decide)
  intro character first
  exact all character (follows character first)

theorem readDigits?_append {digits rest : List Char} (isDigits : IsDigits digits)
    (stops : ∀ character ∈ rest.head?, character.isDigit = false) :
    readDigits? (digits ++ rest) = some (digits, rest) := by
  have taken : rest.takeWhile Char.isDigit = [] := by
    cases rest with
    | nil => rfl
    | cons character rest => exact List.takeWhile_cons_of_neg (by simp [stops character rfl])
  have dropped : rest.dropWhile Char.isDigit = rest := by
    cases rest with
    | nil => rfl
    | cons character rest => exact List.dropWhile_cons_of_neg (by simp [stops character rfl])
  simp only [readDigits?]
  rw [List.takeWhile_append_of_pos isDigits.digit, List.dropWhile_append_of_pos isDigits.digit,
    taken, dropped, List.append_nil, if_neg (by simpa using isDigits.nonempty)]

private theorem isDigit_ne {character : Char} (digit : character.isDigit = true) :
    ∀ other ∈ blanks ++ ['+', '-', '"', '[', '{', 'n', 't', 'f', ']'], character ≠ other := by
  have none : ∀ other ∈ blanks ++ ['+', '-', '"', '[', '{', 'n', 't', 'f', ']'],
      other.isDigit = false := List.all_iff_forall_prop.1 (by decide)
  rintro other listed rfl
  rw [none character listed] at digit
  cases digit

theorem toNat_lt_of_isDigit {character : Char} (digit : character.isDigit = true) :
    character.toNat < 128 := by
  simp only [Char.isDigit, Bool.and_eq_true, decide_eq_true_eq] at digit
  have most : character.val.toNat ≤ 57 := digit.2
  exact Nat.lt_of_le_of_lt most (by decide)

/-- No other document begins as a numeral does. -/
private theorem beginsNumeral {first : Char} (begins : first = '-' ∨ first.isDigit = true) :
    first.toNat < 128 ∧ isSpace first = false ∧
      ∀ other ∈ ['"', '[', '{', 'n', 't', 'f', ']'], first ≠ other := by
  rcases begins with rfl | digit
  · exact ⟨by decide, by decide, List.all_iff_forall_prop.1 (by decide)⟩
  · have different := isDigit_ne digit
    have known : ∀ other ∈ ['"', '[', '{', 'n', 't', 'f', ']'],
        other ∈ blanks ++ ['+', '-', '"', '[', '{', 'n', 't', 'f', ']'] :=
      List.all_iff_forall_prop.1 (by decide)
    refine ⟨toNat_lt_of_isDigit digit, ?_, fun other listed => different other ?_⟩
    · simp [isSpace, different ' ' (by decide), different '\n' (by decide),
        different '\t' (by decide), different '\r' (by decide)]
    · exact known other listed

private theorem readExponent?_append {exponent : Option (Bool × List Char)} {text rest : List Char}
    (written : Numeral.WritesExponent exponent text) (follows : Follows rest) :
    readExponent? (text ++ rest) = some (exponent, rest) := by
  have stops := follows.stops
  cases written with
  | absent =>
      cases rest with
      | nil => rfl
      | cons mark rest =>
          obtain ⟨_, _, notLower, notUpper⟩ := stops mark rfl
          simp [readExponent?, notLower, notUpper]
  | present isMark signed isDigits =>
      rename_i mark sign digits down
      have read := readDigits?_append isDigits fun character first => (stops character first).1
      have marked : mark = 'e' ∨ mark = 'E' := by
        simpa using isMark
      simp only [List.mem_cons, Prod.mk.injEq, List.not_mem_nil, or_false] at signed
      rcases signed with ⟨rfl, rfl⟩ | ⟨rfl, rfl⟩ | ⟨rfl, rfl⟩
      · obtain ⟨first, others, rfl⟩ := List.exists_cons_of_ne_nil isDigits.nonempty
        have noSign := isDigit_ne (isDigits.digit first List.mem_cons_self)
        have noPlus := noSign '+' (by decide)
        have noMinus := noSign '-' (by decide)
        rw [List.cons_append] at read
        simp [readExponent?, marked, noPlus, noMinus, read]
      · simp [readExponent?, marked, read]
      · simp [readExponent?, marked, read]

private theorem stops_exponent {exponent : Option (Bool × List Char)} {text rest : List Char}
    (written : Numeral.WritesExponent exponent text) (follows : Follows rest) :
    ∀ character ∈ (text ++ rest).head?, character.isDigit = false ∧ character ≠ '.' := by
  intro character first
  cases written with
  | absent =>
      obtain ⟨noDigit, noPoint, _⟩ := follows.stops character first
      exact ⟨noDigit, noPoint⟩
  | present isMark signed isDigits =>
      rename_i mark sign digits down
      obtain rfl : mark = character := by simpa using first
      have both : ∀ mark ∈ ['e', 'E'], mark.isDigit = false ∧ mark ≠ '.' :=
        List.all_iff_forall_prop.1 (by decide)
      exact both mark isMark

private theorem readFraction?_append {fraction text rest : List Char}
    (written : Numeral.WritesFraction fraction text)
    (stops : ∀ character ∈ rest.head?, character.isDigit = false ∧ character ≠ '.') :
    readFraction? (text ++ rest) = some (fraction, rest) := by
  cases written with
  | absent =>
      cases rest with
      | nil => rfl
      | cons character rest => simp [readFraction?, (stops character rfl).2]
  | present isDigits =>
      exact readDigits?_append isDigits fun character first => (stops character first).1

private theorem stops_fraction {fraction text rest : List Char}
    (written : Numeral.WritesFraction fraction text)
    (stops : ∀ character ∈ rest.head?, character.isDigit = false ∧ character ≠ '.') :
    ∀ character ∈ (text ++ rest).head?, character.isDigit = false := by
  intro character first
  cases written with
  | absent => exact (stops character first).1
  | present isDigits =>
      obtain rfl : '.' = character := by simpa using first
      decide

theorem readNumeral?_append {numeral : Numeral} {text rest : List Char}
    (written : numeral.Writes text) (follows : Follows rest) :
    readNumeral? (text ++ rest) = some (numeral, rest) := by
  cases written with
  | intro isDigits leading fractionWritten exponentWritten =>
      rename_i isNegative integer fraction fractionText exponentText exponent
      have behindFraction := stops_exponent exponentWritten follows
      have readInteger :=
        readDigits?_append isDigits (stops_fraction fractionWritten behindFraction)
      have readFraction := readFraction?_append fractionWritten behindFraction
      have readExponent := readExponent?_append exponentWritten follows
      have proper : integer.head? = some '0' → integer.length = 1 := by
        intro zero
        rw [leading zero]
        rfl
      have signed (behind : List Char) :
          splitSign ((if isNegative then ['-'] else []) ++ (integer ++ behind)) =
            (isNegative, integer ++ behind) := by
        cases isNegative with
        | true => rfl
        | false =>
            obtain ⟨first, others, rfl⟩ := List.exists_cons_of_ne_nil isDigits.nonempty
            have noMinus := isDigit_ne (isDigits.digit first List.mem_cons_self) '-' (by decide)
            simp [splitSign, noMinus]
      rw [readNumeral?, List.append_assoc, List.append_assoc, List.append_assoc, signed]
      simpa [readInteger, readFraction, readExponent] using proper

private theorem hexDigit?_of_isHexDigit {character : Char} {value : Nat}
    (digit : IsHexDigit character value) :
    hexDigit? character = some value ∧ character.toNat < 128 := by
  have order (left right : Char) : left ≤ right ↔ left.toNat ≤ right.toNat := Iff.rfl
  refine ⟨?_, by unfold IsHexDigit at digit; omega⟩
  simp only [hexDigit?, order, Char.reduceToNat, Bool.and_eq_true, decide_eq_true_eq]
  rcases digit with ⟨small, same⟩ | ⟨least, most, lower | upper⟩
  · rw [if_pos (by omega)]
    exact congrArg some (by omega)
  · rw [if_neg (by omega), if_pos (by omega)]
    exact congrArg some (by omega)
  · rw [if_neg (by omega), if_neg (by omega), if_pos (by omega)]
    exact congrArg some (by omega)

/-- The octets of an escaped unit and the unit that is read from them. -/
private theorem exists_hexUnit? {unit : Nat} {digits : List Char}
    (written : WritesUnit unit digits) :
    ∃ first second third fourth, hexUnit? first second third fourth = some unit ∧
      ∀ text, Octets.ofCharacters ('\\' :: 'u' :: (digits ++ text)) =
        '\\' :: 'u' :: first :: second :: third :: fourth :: Octets.ofCharacters text := by
  cases written with
  | intro firstDigit secondDigit thirdDigit fourthDigit =>
      rename_i first second third fourth _ _ _ _
      obtain ⟨firstRead, firstSmall⟩ := hexDigit?_of_isHexDigit firstDigit
      obtain ⟨secondRead, secondSmall⟩ := hexDigit?_of_isHexDigit secondDigit
      obtain ⟨thirdRead, thirdSmall⟩ := hexDigit?_of_isHexDigit thirdDigit
      obtain ⟨fourthRead, fourthSmall⟩ := hexDigit?_of_isHexDigit fourthDigit
      refine ⟨first, second, third, fourth, ?_, fun text => ?_⟩
      · simp [hexUnit?, firstRead, secondRead, thirdRead, fourthRead]
      · simp only [List.cons_append, List.nil_append]
        rw [Octets.ofCharacters_cons_of_lt (by decide), Octets.ofCharacters_cons_of_lt (by decide),
          Octets.ofCharacters_cons_of_lt firstSmall, Octets.ofCharacters_cons_of_lt secondSmall,
          Octets.ofCharacters_cons_of_lt thirdSmall, Octets.ofCharacters_cons_of_lt fourthSmall]

theorem pushCharacter_encoded (character : Char) (prior : List Char) :
    pushCharacter character (Octets.encoded prior).reverse =
      (Octets.encoded (prior ++ [character])).reverse := by
  have own : character.toString.toUTF8.toList = String.utf8EncodeChar character := by
    have single := Octets.toList_toUTF8_ofList [character]
    simpa [Octets.encoded] using single
  rw [pushCharacter, own]
  simp [Octets.encoded]

/-- Octets other than quotes, backslashes and controls are kept. -/
private theorem readText_plain {bytes : List UInt8}
    (plain : ∀ byte ∈ bytes, byte.toNat ≠ 34 ∧ byte.toNat ≠ 92 ∧ 32 ≤ byte.toNat)
    (gathered : List UInt8) (rest : List Char) :
    readText true none gathered (Octets.ofEncoded bytes ++ rest) =
      readText true none (bytes.reverse ++ gathered) rest := by
  induction bytes generalizing gathered with
  | nil => rfl
  | cons byte bytes induction =>
      obtain ⟨⟨noQuote, noEscape, printed⟩, others⟩ := List.forall_mem_cons.1 plain
      have value := Octets.toNat_ofNat_byte byte
      have notQuote : Char.ofNat byte.toNat ≠ '"' := by
        intro same
        rw [same] at value
        exact noQuote value.symm
      have notEscape : Char.ofNat byte.toNat ≠ '\\' := by
        intro same
        rw [same] at value
        exact noEscape value.symm
      have control : ¬(Char.ofNat byte.toNat).toNat < 0x20 := by
        rw [value]
        omega
      rw [Octets.ofEncoded, List.map_cons, List.cons_append, readText, if_neg control,
        Octets.toUInt8_ofNat_byte]
      · have further := induction others (byte :: gathered)
        rw [Bool.true_and, Option.isNone_none, List.reverse_cons, List.append_assoc,
          List.singleton_append]
        exact further
      · simp [notQuote]
      · simp [notEscape]
      · simp [notEscape]

private theorem plain_of_mem_utf8EncodeChar {character : Char} (noQuote : character ≠ '"')
    (noEscape : character ≠ '\\') (printed : 0x20 ≤ character.toNat) :
    ∀ byte ∈ String.utf8EncodeChar character,
      byte.toNat ≠ 34 ∧ byte.toNat ≠ 92 ∧ 32 ≤ byte.toNat := by
  intro byte member
  by_cases small : character.toNat < 128
  · rw [Octets.utf8EncodeChar_of_lt small, List.mem_singleton] at member
    have value : byte.toNat = character.toNat := by
      rw [member, UInt8.toNat_ofNat', Nat.mod_eq_of_lt]
      omega
    have different (other : Char) (unequal : character ≠ other) :
        character.toNat ≠ other.toNat := fun same => unequal (Char.toNat_inj.1 same)
    rw [value]
    exact ⟨different _ noQuote, different _ noEscape, printed⟩
  · have large := Octets.le_of_mem_utf8EncodeChar (Nat.not_lt.1 small) member
    omega

private theorem readText_of_spells {text value rest : List Char}
    (spells : SpellsText text value rest)
    (prior : List Char) :
    readText true none (Octets.encoded prior).reverse (Octets.ofCharacters text) =
      some (some (String.ofList (prior ++ value)), Octets.ofCharacters rest) := by
  induction spells generalizing prior with
  | close rest =>
      have stored : (⟨(Octets.encoded prior).toArray⟩ : ByteArray) =
          (Octets.encoded prior).toByteArray :=
        ByteArray.ext List.data_toByteArray.symm
      rw [Octets.ofCharacters_cons_of_lt (by decide), readText, List.append_nil,
        List.reverse_reverse, stored, Octets.fromUTF8?_encoded]
      rfl
  | plain noQuote noEscape printed spells induction =>
      rename_i character text value rest
      rw [Octets.ofCharacters_cons,
        readText_plain (plain_of_mem_utf8EncodeChar noQuote noEscape printed)]
      have gathered : (String.utf8EncodeChar character).reverse ++ (Octets.encoded prior).reverse =
          (Octets.encoded (prior ++ [character])).reverse := by
        simp [Octets.encoded]
      rw [gathered, induction, List.append_assoc, List.singleton_append]
  | short listed spells induction =>
      rename_i letter character text value rest
      have facts : ∀ escape ∈ shortEscapes, shortEscape? escape.1 = some escape.2 ∧
          escape.1 ≠ 'u' ∧ escape.1.toNat < 128 := List.all_iff_forall_prop.1 (by decide)
      obtain ⟨known, notUnit, small⟩ := facts _ listed
      rw [Octets.ofCharacters_cons_of_lt (by decide), Octets.ofCharacters_cons_of_lt small,
        readText]
      · simp only [known, Bool.true_and, Option.isNone_none]
        rw [pushCharacter_encoded, induction, List.append_assoc, List.singleton_append]
      · simp [notUnit]
  | unit written noSurrogate spells induction =>
      rename_i digits text value rest unit
      obtain ⟨first, second, third, fourth, read, octets⟩ := exists_hexUnit? written
      have notHigh : isHighSurrogate unit = false := by
        simp only [isHighSurrogate, Bool.and_eq_false_iff, decide_eq_false_iff_not]
        omega
      have notLow : isLowSurrogate unit = false := by
        simp only [isLowSurrogate, Bool.and_eq_false_iff, decide_eq_false_iff_not]
        omega
      have taken : readText true none (Octets.encoded prior).reverse
          (Octets.ofCharacters ('\\' :: 'u' :: (digits ++ text))) =
          readText true none (pushCharacter (Char.ofNat unit) (Octets.encoded prior).reverse)
            (Octets.ofCharacters text) := by
        simp [octets, readText, read, notHigh, notLow]
      rw [taken, pushCharacter_encoded, induction, List.append_assoc, List.singleton_append]
  | pair highWritten isHigh lowWritten isLow spells induction =>
      rename_i highDigits lowDigits text value rest high low
      obtain ⟨first, second, third, fourth, highRead, highOctets⟩ := exists_hexUnit? highWritten
      obtain ⟨fifth, sixth, seventh, eighth, lowRead, lowOctets⟩ := exists_hexUnit? lowWritten
      have opens : isHighSurrogate high = true := by
        simpa [isHighSurrogate] using isHigh
      have closes : isLowSurrogate low = true := by
        simpa [isLowSurrogate] using isLow
      have taken : readText true none (Octets.encoded prior).reverse (Octets.ofCharacters
          ('\\' :: 'u' :: (highDigits ++ '\\' :: 'u' :: (lowDigits ++ text)))) =
          readText true none (pushCharacter
            (Char.ofNat (0x10000 + (high - 0xD800) * 0x400 + (low - 0xDC00)))
              (Octets.encoded prior).reverse) (Octets.ofCharacters text) := by
        simp [highOctets, lowOctets, readText, highRead, lowRead, opens, closes]
      rw [taken, pushCharacter_encoded, induction, List.append_assoc, List.singleton_append]

private theorem readText_quoted {text value rest : List Char}
    (spells : SpellsText text value rest) :
    readText true none [] (Octets.ofCharacters text) =
      some (some (String.ofList value), Octets.ofCharacters rest) :=
  readText_of_spells spells []

end Reader

theorem Spaces.length_le {text rest : List Char} (spaces : Spaces text rest) :
    rest.length ≤ text.length := by
  obtain ⟨blank, _, rfl⟩ := spaces
  simp

theorem SpellsText.length_lt {text value rest : List Char} (spells : SpellsText text value rest) :
    rest.length < text.length := by
  induction spells with
  | close rest => simp
  | plain noQuote noEscape printed spells induction => simp; omega
  | short listed spells induction => simp; omega
  | unit written noSurrogate spells induction => simp; omega
  | pair highWritten isHigh lowWritten isLow spells induction => simp; omega

/-- A numeral begins with its sign or with a digit. -/
theorem Numeral.Writes.exists_first {numeral : Numeral} {text : List Char}
    (written : numeral.Writes text) :
    ∃ first behind, text = first :: behind ∧ (first = '-' ∨ first.isDigit = true) := by
  cases written with
  | intro isDigits leading fractionWritten exponentWritten =>
      rename_i isNegative integer _ _ _ _
      obtain ⟨first, others, rfl⟩ := List.exists_cons_of_ne_nil isDigits.nonempty
      cases isNegative with
      | true => exact ⟨'-', _, rfl, .inl rfl⟩
      | false => exact ⟨first, _, rfl, .inr (isDigits.digit first List.mem_cons_self)⟩

theorem Numeral.Writes.small {numeral : Numeral} {text : List Char}
    (written : numeral.Writes text) : ∀ character ∈ text, character.toNat < 128 := by
  have digits {characters : List Char} (isDigits : IsDigits characters) :
      ∀ character ∈ characters, character.toNat < 128 :=
    fun character member => Reader.toNat_lt_of_isDigit (isDigits.digit character member)
  cases written with
  | intro isDigits leading fractionWritten exponentWritten =>
      rename_i isNegative integer fraction fractionText exponentText exponent
      have sign : ∀ character ∈ (if isNegative then ['-'] else []), character.toNat < 128 := by
        cases isNegative <;> simp
      have fractionSmall : ∀ character ∈ fractionText, character.toNat < 128 := by
        cases fractionWritten with
        | absent => simp
        | present isDigits => exact List.forall_mem_cons.2 ⟨by decide, digits isDigits⟩
      have exponentSmall : ∀ character ∈ exponentText, character.toNat < 128 := by
        cases exponentWritten with
        | absent => simp
        | present isMark signed isDigits =>
            have marks : ∀ mark ∈ ['e', 'E'], mark.toNat < 128 := by simp
            have signs : ∀ sign ∈ [([], false), (['+'], false), (['-'], true)],
                ∀ character ∈ sign.1, character.toNat < 128 := by simp
            exact List.forall_mem_cons.2 ⟨marks _ isMark,
              List.forall_mem_append.2 ⟨signs _ signed, digits isDigits⟩⟩
      exact List.forall_mem_append.2 ⟨sign, List.forall_mem_append.2
        ⟨digits isDigits, List.forall_mem_append.2 ⟨fractionSmall, exponentSmall⟩⟩⟩

mutual

theorem Spells.length_lt {text rest : List Char} {document : Document}
    (spells : Spells text document rest) : rest.length < text.length := by
  cases spells with
  | null =>
      simp only [List.length_cons]
      omega
  | yes =>
      simp only [List.length_cons]
      omega
  | no =>
      simp only [List.length_cons]
      omega
  | number written =>
      obtain ⟨first, behind, rfl, _⟩ := written.exists_first
      simp only [List.length_append, List.length_cons]
      omega
  | text spells =>
      have shorter := spells.length_lt
      simp only [List.length_cons]
      omega
  | emptyArray closes =>
      have shorter := closes.length_le
      simp only [List.length_cons] at shorter ⊢
      omega
  | array spells =>
      have shorter := spells.length_lt
      simp only [List.length_cons]
      omega
  | emptyObject closes =>
      have shorter := closes.length_le
      simp only [List.length_cons] at shorter ⊢
      omega
  | object spells =>
      have shorter := spells.length_lt
      simp only [List.length_cons]
      omega

theorem SpellsItems.length_lt {text rest : List Char} {items : List Document}
    (spells : SpellsItems text items rest) : rest.length < text.length := by
  cases spells with
  | last front spells closes =>
      have frontLength := front.length_le
      have shorter := spells.length_lt
      have closing := closes.length_le
      simp only [List.length_cons] at closing
      omega
  | more front spells separated others =>
      have frontLength := front.length_le
      have shorter := spells.length_lt
      have separator := separated.length_le
      have further := others.length_lt
      simp only [List.length_cons] at separator
      omega

theorem SpellsMember.length_lt {text rest : List Char} {member : Option String × Document}
    (spells : SpellsMember text member rest) : rest.length < text.length := by
  cases spells with
  | intro front named separated between spells =>
      have frontLength := front.length_le
      have key := named.length_lt
      have separator := separated.length_le
      have gap := between.length_le
      have shorter := spells.length_lt
      simp only [List.length_cons] at frontLength separator
      omega

theorem SpellsMembers.length_lt {text rest : List Char}
    {members : List (Option String × Document)} (spells : SpellsMembers text members rest) :
    rest.length < text.length := by
  cases spells with
  | last spells closes =>
      have shorter := spells.length_lt
      have closing := closes.length_le
      simp only [List.length_cons] at closing
      omega
  | more spells separated others =>
      have shorter := spells.length_lt
      have separator := separated.length_le
      have further := others.length_lt
      simp only [List.length_cons] at separator
      omega

end

/-- A document begins with a character of its own. -/
theorem Spells.exists_first {text rest : List Char} {document : Document}
    (spells : Spells text document rest) :
    ∃ first behind, text = first :: behind ∧ first.toNat < 128 ∧
      Reader.isSpace first = false ∧ first ≠ ']' := by
  have plain : ∀ first ∈ ['n', 't', 'f', '"', '[', '{', '-'], first.toNat < 128 ∧
      Reader.isSpace first = false ∧ first ≠ ']' := List.all_iff_forall_prop.1 (by decide)
  cases spells with
  | null => exact ⟨_, _, rfl, plain 'n' (by simp)⟩
  | yes => exact ⟨_, _, rfl, plain 't' (by simp)⟩
  | no => exact ⟨_, _, rfl, plain 'f' (by simp)⟩
  | number written =>
      obtain ⟨first, behind, rfl, begins⟩ := written.exists_first
      obtain ⟨small, solid, different⟩ := Reader.beginsNumeral begins
      exact ⟨first, _, rfl, small, solid, different ']' (by simp)⟩
  | text spells => exact ⟨_, _, rfl, plain '"' (by simp)⟩
  | emptyArray closes => exact ⟨_, _, rfl, plain '[' (by simp)⟩
  | array spells => exact ⟨_, _, rfl, plain '[' (by simp)⟩
  | emptyObject closes => exact ⟨_, _, rfl, plain '{' (by simp)⟩
  | object spells => exact ⟨_, _, rfl, plain '{' (by simp)⟩

namespace Reader

theorem readValue_congr {left right : List Char} (same : skipSpace left = skipSpace right)
    (fuel : Nat) : readValue fuel left = readValue fuel right := by
  cases fuel with
  | zero => rfl
  | succ fuel => rw [readValue, readValue, same]

theorem readItem_congr {left right : List Char} (same : skipSpace left = skipSpace right)
    (fuel : Nat) : readItem fuel left = readItem fuel right := by
  cases fuel with
  | zero => rfl
  | succ fuel => rw [readItem, readItem, readValue_congr same]

private theorem skipSpace_skipSpace (characters : List Char) :
    skipSpace (skipSpace characters) = skipSpace characters := by
  induction characters with
  | nil => rfl
  | cons character rest induction =>
      cases solid : isSpace character with
      | true => simpa [skipSpace, solid] using induction
      | false => simp [skipSpace, solid]

private theorem readWord_append {word : List Char} (small : ∀ letter ∈ word, letter.toNat < 128)
    (document : Document) (rest : List Char) :
    readWord word document (Octets.ofCharacters (word ++ rest)) =
      (document, some (Octets.ofCharacters rest)) := by
  have dropped : ∀ characters, dropWord? word (word ++ characters) = some characters := by
    intro characters
    clear small
    induction word with
    | nil => rfl
    | cons letter word induction => simpa [dropWord?] using induction
  rw [Octets.ofCharacters_append_of_lt small, readWord, dropped]

private theorem readValue_number {numeral : Numeral} {text rest : List Char}
    (written : numeral.Writes text) (follows : Follows rest) (fuel : Nat) :
    readValue (fuel + 1) (Octets.ofCharacters (text ++ rest)) =
      (.number numeral.number?, some (Octets.ofCharacters rest)) := by
  have read := readNumeral?_append written follows.ofCharacters
  rw [Octets.ofCharacters_append_of_lt written.small]
  obtain ⟨first, behind, rfl, begins⟩ := written.exists_first
  obtain ⟨_, solid, different⟩ := beginsNumeral begins
  have skipped : skipSpace (first :: behind ++ Octets.ofCharacters rest) =
      first :: behind ++ Octets.ofCharacters rest :=
    List.dropWhile_cons_of_neg (by simp [solid])
  rw [List.cons_append] at read skipped ⊢
  simp [readValue, skipped, different '"' (by simp), different '[' (by simp),
    different '{' (by simp), different 'n' (by simp), different 't' (by simp),
    different 'f' (by simp), read]

/-- The items of an array begin with the first of them. -/
private theorem exists_first_item {text rest : List Char} {items : List Document}
    (spells : SpellsItems text items rest) :
    ∃ first tail, skipSpace (Octets.ofCharacters text) = first :: tail ∧ first ≠ ']' := by
  have begins {start behind : List Char} {item : Document} (front : Spaces text start)
      (spells : Spells start item behind) :
      ∃ first tail, skipSpace (Octets.ofCharacters text) = first :: tail ∧ first ≠ ']' := by
    obtain ⟨first, tail, rfl, small, solid, opens⟩ := spells.exists_first
    exact ⟨first, _, (skipSpace_of_spaces front).trans (skipSpace_cons small solid tail), opens⟩
  cases spells with
  | last front spells closes => exact begins front spells
  | more front spells separated others => exact begins front spells

private theorem exists_first_member {text rest : List Char}
    {members : List (Option String × Document)}
    (spells : SpellsMembers text members rest) :
    ∃ tail, skipSpace (Octets.ofCharacters text) = '"' :: tail := by
  have begins {behind : List Char} {member : Option String × Document}
      (spells : SpellsMember text member behind) :
      ∃ tail, skipSpace (Octets.ofCharacters text) = '"' :: tail := by
    cases spells with
    | intro front named separated between spells =>
        exact ⟨_, (skipSpace_of_spaces front).trans (skipSpace_cons (by decide) (by decide) _)⟩
  cases spells with
  | last spells closes => exact begins spells
  | more spells separated others => exact begins spells

section Steps

variable {text behind next rest : List Char} {fuel : Nat}

private theorem readItems_close (closes : Spaces behind (']' :: rest)) (isFirst : Bool) :
    readItems (fuel + 1) isFirst (Octets.ofCharacters behind) =
      ([], some (Octets.ofCharacters rest)) := by
  have skipped := (skipSpace_of_spaces closes).trans (skipSpace_cons (by decide) (by decide) rest)
  simp [readItems, skipped]

private theorem readItems_comma (separated : Spaces behind (',' :: next)) :
    readItems (fuel + 1) false (Octets.ofCharacters behind) =
      readItem fuel (Octets.ofCharacters next) := by
  have skipped :=
    (skipSpace_of_spaces separated).trans (skipSpace_cons (by decide) (by decide) next)
  simp [readItems, skipped]

/-- The items of an array begin with its first item. -/
private theorem readItems_first {first : Char} {tail : List Char}
    (begins : skipSpace (Octets.ofCharacters text) = first :: tail) (opens : first ≠ ']') :
    readItems (fuel + 1) true (Octets.ofCharacters text) =
      readItem fuel (Octets.ofCharacters text) := by
  have same := readItem_congr (skipSpace_skipSpace (Octets.ofCharacters text)) fuel
  rw [begins] at same
  rw [← same]
  simp [readItems, begins, opens]

private theorem readMembers_close (closes : Spaces behind ('}' :: rest)) (isFirst : Bool) :
    readMembers (fuel + 1) isFirst (Octets.ofCharacters behind) =
      ([], some (Octets.ofCharacters rest)) := by
  have skipped := (skipSpace_of_spaces closes).trans (skipSpace_cons (by decide) (by decide) rest)
  simp [readMembers, skipped]

private theorem readMembers_comma (separated : Spaces behind (',' :: next)) :
    readMembers (fuel + 1) false (Octets.ofCharacters behind) =
      readMember fuel (skipSpace (Octets.ofCharacters next)) := by
  have skipped :=
    (skipSpace_of_spaces separated).trans (skipSpace_cons (by decide) (by decide) next)
  simp [readMembers, skipped]

private theorem readMembers_first {tail : List Char}
    (begins : skipSpace (Octets.ofCharacters text) = '"' :: tail) :
    readMembers (fuel + 1) true (Octets.ofCharacters text) =
      readMember fuel (skipSpace (Octets.ofCharacters text)) := by
  simp [readMembers, begins]

end Steps

/-- With so much fuel every document that is short enough is read. -/
def ReadsValues (fuel : Nat) : Prop :=
  ∀ {text rest : List Char} {document : Document}, Spells text document rest →
    Follows rest → 3 * text.length ≤ fuel →
      readValue fuel (Octets.ofCharacters text) = (document, some (Octets.ofCharacters rest))

def ReadsItems (fuel : Nat) : Prop :=
  ∀ {text rest : List Char} {items : List Document}, SpellsItems text items rest →
    3 * text.length + 1 ≤ fuel →
      readItem fuel (Octets.ofCharacters text) = (items, some (Octets.ofCharacters rest))

def ReadsMembers (fuel : Nat) : Prop :=
  ∀ {text rest : List Char} {members : List (Option String × Document)},
    SpellsMembers text members rest → 3 * text.length + 1 ≤ fuel →
      readMember fuel (skipSpace (Octets.ofCharacters text)) =
        (members, some (Octets.ofCharacters rest))

theorem readsValues_step {fuel : Nat} (items : ReadsItems fuel) (members : ReadsMembers fuel) :
    ReadsValues (fuel + 2) := by
  intro text rest document spells follows enough
  have opened (first : Char) (behind : List Char) (small : first.toNat < 128)
      (solid : isSpace first = false) :
      skipSpace (Octets.ofCharacters (first :: behind)) = first :: Octets.ofCharacters behind :=
    skipSpace_cons small solid behind
  cases spells with
  | null =>
      rw [readValue, opened 'n' _ (by decide) (by decide)]
      exact readWord_append (List.all_iff_forall_prop.1 (by decide)) .null rest
  | yes =>
      rw [readValue, opened 't' _ (by decide) (by decide)]
      exact readWord_append (List.all_iff_forall_prop.1 (by decide)) (.boolean true) rest
  | no =>
      rw [readValue, opened 'f' _ (by decide) (by decide)]
      exact readWord_append (List.all_iff_forall_prop.1 (by decide)) (.boolean false) rest
  | number written =>
      exact readValue_number written follows (fuel + 1)
  | text spells =>
      rw [readValue, opened '"' _ (by decide) (by decide)]
      simp only [readText_quoted spells]
  | emptyArray closes =>
      rw [readValue, opened '[' _ (by decide) (by decide)]
      simp only [readItems_close closes]
  | array spells =>
      rename_i behind found
      obtain ⟨first, tail, begins, opens⟩ := exists_first_item spells
      rw [List.length_cons] at enough
      have read := items spells (by omega)
      rw [readValue, opened '[' _ (by decide) (by decide)]
      simp only [readItems_first begins opens, read]
  | emptyObject closes =>
      rw [readValue, opened '{' _ (by decide) (by decide)]
      simp only [readMembers_close closes]
  | object spells =>
      obtain ⟨tail, begins⟩ := exists_first_member spells
      rw [List.length_cons] at enough
      have read := members spells (by omega)
      rw [readValue, opened '{' _ (by decide) (by decide)]
      simp only [readMembers_first begins, read]

theorem readsItems_step {fuel : Nat} (values : ReadsValues (fuel + 1)) (items : ReadsItems fuel) :
    ReadsItems (fuel + 2) := by
  intro text rest document spells enough
  cases spells with
  | last front spells closes =>
      have shorter := front.length_le
      have value := values spells (.of_spaces closes (by simp)) (by omega)
      rw [readItem, readValue_congr (skipSpace_of_spaces front), value]
      simp only [readItems_close closes]
  | more front spells separated others =>
      have shorter := front.length_le
      have behind := spells.length_lt
      have separator := separated.length_le
      rw [List.length_cons] at separator
      have value := values spells (.of_spaces separated (by simp)) (by omega)
      have later := items others (by omega)
      rw [readItem, readValue_congr (skipSpace_of_spaces front), value]
      simp only [readItems_comma separated, later]

theorem readMember_of_spells {fuel : Nat} (values : ReadsValues fuel) {text behind : List Char}
    {member : Option String × Document} (spells : SpellsMember text member behind)
    (follows : Follows behind) (enough : 3 * text.length ≤ fuel) :
    readMember (fuel + 1) (skipSpace (Octets.ofCharacters text)) =
      (member :: (readMembers fuel false (Octets.ofCharacters behind)).1,
        (readMembers fuel false (Octets.ofCharacters behind)).2) := by
  cases spells with
  | intro front named separated between spells =>
      have frontLength := front.length_le
      have keyLength := named.length_lt
      have separator := separated.length_le
      have gap := between.length_le
      rw [List.length_cons] at frontLength separator
      have opened := (skipSpace_of_spaces front).trans
        (skipSpace_cons (by decide) (by decide) _)
      have colon := (skipSpace_of_spaces separated).trans
        (skipSpace_cons (by decide) (by decide) _)
      have value := values spells follows (by omega)
      rw [← readValue_congr (skipSpace_of_spaces between)] at value
      rw [opened, readMember]
      simp only [readText_quoted named, colon, value]

theorem readsMembers_step {fuel : Nat} (values : ReadsValues (fuel + 1))
    (members : ReadsMembers fuel) : ReadsMembers (fuel + 2) := by
  intro text rest document spells enough
  cases spells with
  | last spells closes =>
      rw [readMember_of_spells values spells (.of_spaces closes (by simp)) (by omega),
        readMembers_close closes]
  | more spells separated others =>
      have behind := spells.length_lt
      have separator := separated.length_le
      rw [List.length_cons] at separator
      rw [readMember_of_spells values spells (.of_spaces separated (by simp)) (by omega),
        readMembers_comma separated, members others (by omega)]

/-- The reader reads all that is spelled if it has fuel for its length. -/
theorem reads (fuel : Nat) : ReadsValues fuel ∧ ReadsItems fuel ∧ ReadsMembers fuel := by
  -- A text that spells anything is not empty, so less than two steps never are enough.
  have short {fuel : Nat} (few : fuel < 3) :
      ReadsValues fuel ∧ ReadsItems fuel ∧ ReadsMembers fuel := by
    refine ⟨fun {_ _ _} spells _ enough => ?_, fun {_ _ _} spells enough => ?_,
      fun {_ _ _} spells enough => ?_⟩
    · have longer := spells.length_lt
      omega
    · have longer := spells.length_lt
      omega
    · have longer := spells.length_lt
      omega
  induction fuel using Nat.twoStepInduction with
  | zero => exact short (by decide)
  | one => exact short (by decide)
  | more fuel here next =>
      obtain ⟨_, items, members⟩ := here
      obtain ⟨values, _, _⟩ := next
      exact ⟨readsValues_step items members, readsItems_step values items,
        readsMembers_step values members⟩

end Reader

/-- A text that is a document is read as that document. -/
theorem read_of_isDocument {text : List Char} {document : Document}
    (isDocument : IsDocument text document) :
    read (String.ofList text).toUTF8 = ⟨document, false⟩ := by
  obtain ⟨start, behind, front, spells, closes⟩ := isDocument
  have follows : Reader.Follows behind := by
    obtain ⟨blank, isBlank, rfl⟩ := closes
    intro character first
    rw [List.append_nil] at first
    exact List.mem_append_left _ (isBlank character (List.mem_of_mem_head? first))
  have enough : 3 * start.length ≤ 3 * (Octets.ofCharacters text).length + 3 := by
    have shorter := front.length_le
    have octets := Octets.length_le_length_ofCharacters text
    omega
  have value := (Reader.reads _).1 spells follows enough
  rw [← Reader.readValue_congr (Reader.skipSpace_of_spaces front)] at value
  have rest : Reader.skipSpace (Octets.ofCharacters behind) = [] :=
    Reader.skipSpace_of_spaces closes
  have characters : (String.ofList text).toUTF8.toList.map (fun byte => Char.ofNat byte.toNat) =
      Octets.ofCharacters text := by
    rw [Octets.toList_toUTF8_ofList]
    rfl
  simp only [read, characters, value, rest, List.isEmpty_nil, Bool.not_true]

/-- To decode a text that is a document is to decode the document. -/
theorem bytes_of_isDocument {α : Type} (decode : Decoder α) {text : List Char}
    {document : Document} (isDocument : IsDocument text document) :
    Decode.bytes decode (String.ofList text).toUTF8 = decode document := by
  rw [Decode.bytes, read_of_isDocument isDocument]
  cases decode document <;> rfl

end ElmAtlas.Json
