import ElmAtlas.Constraint
import ElmAtlas.Proofs.Text.Pieces

/-!
# The text of a version

A number has one numeral and a version one text.  The readers accept these texts and
no others: no sign, no leading zero, no number of more than 64 bits, no part too few or
too many and nothing behind the last part.
-/

namespace ElmAtlas

namespace Text

private theorem digitsValue_natural (number : Nat) : digitsValue (natural number) = number := by
  have value : Nat.ofDigitChars 10 (natural number) 0 = digitsValue (natural number) :=
    Nat.ofDigitChars_eq_foldl
  rw [natural, Nat.ofDigitChars_ten_toDigits] at value
  exact value.symm

theorem isDigit_of_mem_natural {number : Nat} {digit : Char} (member : digit ∈ natural number) :
    digit.isDigit = true :=
  Nat.isDigit_of_mem_toDigits (by decide) (by decide) member

theorem natural_ne_nil (number : Nat) : natural number ≠ [] :=
  Nat.toDigits_ne_nil

private theorem toNat_of_isDigit {digit : Char} (decimal : digit.isDigit = true) :
    48 ≤ digit.toNat ∧ digit.toNat ≤ 57 := by
  simpa [Char.isDigit, UInt32.le_iff_toNat_le] using decimal

private theorem digitValue_lt_ten {digit : Char} (decimal : digit.isDigit = true) :
    digitValue digit < 10 := by
  have bounds := toNat_of_isDigit decimal
  have zero : '0'.toNat = 48 := rfl
  rw [digitValue, zero]
  omega

private theorem natural_digitValue {digit : Char} (decimal : digit.isDigit = true) :
    natural (digitValue digit) = [digit] := by
  have bounds := toNat_of_isDigit decimal
  have zero : '0'.toNat = 48 := rfl
  have small := digitValue_lt_ten decimal
  rw [natural, Nat.toDigits_of_lt_base small]
  congr 1
  apply Char.toNat_inj.1
  rw [Nat.toNat_digitChar_of_lt_ten small, digitValue, zero]
  omega

theorem isBlank_of_isDigit {digit : Char} (decimal : digit.isDigit = true) :
    isBlank digit = false := by
  have bounds := toNat_of_isDigit decimal
  simp only [isBlank, Bool.or_eq_false_iff, Bool.and_eq_false_iff, decide_eq_false_iff_not,
    beq_eq_false_iff_ne]
  omega

/-- Digits behind the numeral of a positive number make a longer numeral. -/
private theorem natural_append_digits {digits : List Char}
    (decimal : ∀ digit ∈ digits, digit.isDigit = true) {number : Nat} (positive : 0 < number) :
    natural number ++ digits =
      natural (digits.foldl (fun value digit => 10 * value + digitValue digit) number) := by
  induction digits generalizing number with
  | nil => rw [List.append_nil, List.foldl_nil]
  | cons digit digits induction =>
      obtain ⟨first, rest⟩ := List.forall_mem_cons.1 decimal
      have longer : natural number ++ [digit] = natural (10 * number + digitValue digit) := by
        rw [← natural_digitValue first]
        exact Nat.toDigits_append_toDigits (by decide) positive (digitValue_lt_ten first)
      rw [List.append_cons, longer, List.foldl_cons]
      apply induction rest
      omega

private theorem natural_digitsValue {first : Char} {digits : List Char} (leading : first ≠ '0')
    (decimal : ∀ digit ∈ first :: digits, digit.isDigit = true) :
    natural (digitsValue (first :: digits)) = first :: digits := by
  obtain ⟨firstDecimal, rest⟩ := List.forall_mem_cons.1 decimal
  have positive : 0 < digitValue first := by
    have nonzero : digitValue first ≠ 0 := by
      intro zero
      have written := natural_digitValue firstDecimal
      rw [zero] at written
      exact leading (List.singleton_inj.1 written).symm
    omega
  have whole := natural_append_digits rest positive
  rw [natural_digitValue firstDecimal] at whole
  rw [digitsValue, List.foldl_cons, Nat.mul_zero, Nat.zero_add, ← whole]
  rfl

private theorem head?_natural_of_pos {number : Nat} (positive : 0 < number) :
    (natural number).head? ≠ some '0' := by
  induction number using Nat.strongRecOn with
  | ind number induction =>
      rw [natural, Nat.toDigits_eq_if (by decide)]
      split
      · rw [List.head?_cons, Ne, Option.some.injEq, Nat.digitChar_eq_zero]
        omega
      · have shorter := induction (number / 10) (by omega) (by omega)
        obtain ⟨first, digits, written⟩ :=
          List.exists_cons_of_ne_nil (natural_ne_nil (number / 10))
        rw [natural] at shorter written
        rw [written] at shorter ⊢
        exact shorter

theorem readNatural?_cons {first : Char} (leading : first ≠ '0') (digits : List Char) :
    readNatural? (first :: digits) =
      if (first :: digits).all Char.isDigit then some (digitsValue (first :: digits))
      else none := by
  unfold readNatural?
  split
  · contradiction
  · rename_i same
    exact absurd (List.cons.inj same).1 leading
  · rename_i same
    exact absurd (List.cons.inj same).1 leading
  · rfl

/-- The reader of numerals accepts exactly what is written. -/
theorem readNatural?_eq_some {characters : List Char} {number : Nat} :
    readNatural? characters = some number ↔ characters = natural number := by
  constructor
  · intro read
    cases characters with
    | nil => cases read
    | cons first digits =>
        by_cases leading : first = '0'
        · subst leading
          cases digits with
          | nil =>
              obtain rfl : 0 = number := Option.some.inj read
              exact (Nat.toDigits_zero 10).symm
          | cons digit digits => cases read
        · rw [readNatural?_cons leading] at read
          split at read
          · rename_i decimal
            rw [← Option.some.inj read]
            exact (natural_digitsValue leading (List.all_eq_true.1 decimal)).symm
          · cases read
  · rintro rfl
    rcases Nat.eq_zero_or_pos number with rfl | positive
    · rw [natural, Nat.toDigits_zero]
      rfl
    · have decimal : (natural number).all Char.isDigit = true :=
        List.all_eq_true.2 fun _ member => isDigit_of_mem_natural member
      have value := digitsValue_natural number
      have leading := head?_natural_of_pos positive
      obtain ⟨first, digits, written⟩ := List.exists_cons_of_ne_nil (natural_ne_nil number)
      rw [written] at decimal value leading ⊢
      rw [readNatural?_cons (fun zero => leading (congrArg some zero)), if_pos decimal, value]

end Text

namespace SemanticVersion

theorem readNumber?_eq_some {digits : List Char} {number : UInt64} :
    readNumber? digits = some number ↔ digits = Text.natural number.toNat := by
  rw [← Text.readNatural?_eq_some]
  unfold readNumber?
  constructor
  · intro read
    split at read
    · rename_i value numeral
      split at read
      · rename_i small
        rw [← Option.some.inj read, numeral, UInt64.toNat_ofNat_of_lt' small]
      · cases read
    · cases read
  · intro numeral
    rw [numeral]
    simp only [UInt64.toNat_lt_size, if_true, UInt64.ofNat_toNat]

private theorem cutIdentifiers?_of_free {mark : Char} {characters : List Char}
    (free : mark ∉ characters) (accepts : List Char → Bool) :
    cutIdentifiers? mark accepts characters = some (characters, []) := by
  rw [cutIdentifiers?, Text.splitOnce_of_free free]

/-- Where nothing is cut off, the whole text is left. -/
private theorem eq_of_cutIdentifiers? {mark : Char} {accepts : List Char → Bool}
    {characters front : List Char} (nonempty : accepts [] = false)
    (cut : cutIdentifiers? mark accepts characters = some (front, [])) : characters = front := by
  unfold cutIdentifiers? at cut
  split at cut
  · split at cut
    · rename_i accepted
      obtain ⟨_, rfl⟩ := Prod.mk.inj (Option.some.inj cut)
      rw [Text.split, List.all_cons, nonempty] at accepted
      cases accepted
    · cases cut
  · exact (Prod.mk.inj (Option.some.inj cut)).1

private theorem ofCharacters?_of_readNumbers? {characters : List Char} {major minor patch : UInt64}
    (noBuild : '+' ∉ characters) (noPreRelease : '-' ∉ characters)
    (read : readNumbers? characters = some (major, minor, patch)) :
    ofCharacters? characters = some ⟨major, minor, patch, [], []⟩ := by
  simp only [ofCharacters?, cutIdentifiers?_of_free noBuild, cutIdentifiers?_of_free noPreRelease,
    read, Option.bind_eq_bind, Option.bind_some, Option.pure_def]

/-- A text of the grammar without pre-release and build is three numbers. -/
private theorem readNumbers?_of_plain {characters : List Char} {version : SemanticVersion}
    (read : ofCharacters? characters = some version) (noPreRelease : version.preRelease = [])
    (noBuild : version.build = []) :
    readNumbers? characters = some (version.major, version.minor, version.patch) := by
  simp only [ofCharacters?, Option.bind_eq_bind, Option.bind_eq_some_iff, Option.pure_def,
    Option.some.injEq, Prod.exists] at read
  obtain ⟨front, build, cutBuild, numbers, preRelease, cutPreRelease, major, minor, patch,
    readNumbers, rfl⟩ := read
  obtain rfl : build = [] := noBuild
  obtain rfl : preRelease = [] := noPreRelease
  rw [eq_of_cutIdentifiers? rfl cutBuild, eq_of_cutIdentifiers? rfl cutPreRelease, readNumbers]

end SemanticVersion

namespace Version

/-- The three numerals of a version. -/
def parts (version : Version) : List (List Char) :=
  [Text.natural version.major.toNat, Text.natural version.minor.toNat,
    Text.natural version.patch.toNat]

private theorem characters_eq_join (version : Version) :
    version.characters = Text.join ['.'] version.parts := rfl

theorem isDigit_of_mem_parts {version : Version} {part : List Char}
    (listed : part ∈ version.parts) {character : Char} (member : character ∈ part) :
    character.isDigit = true := by
  have numeral : ∃ number, part = Text.natural number := by
    simp only [parts, List.mem_cons, List.not_mem_nil, or_false] at listed
    rcases listed with rfl | rfl | rfl
    · exact ⟨_, rfl⟩
    · exact ⟨_, rfl⟩
    · exact ⟨_, rfl⟩
  obtain ⟨number, rfl⟩ := numeral
  exact Text.isDigit_of_mem_natural member

theorem split_eq_parts_iff {characters : List Char} {version : Version} :
    Text.split (· == '.') characters = version.parts ↔ characters = version.characters := by
  rw [characters_eq_join]
  apply Text.split_eq_iff
  · exact List.cons_ne_nil _ _
  · intro part listed dot
    exact absurd (isDigit_of_mem_parts listed dot) (by decide)

theorem readNumbers?_eq_some {characters : List Char} {version : Version} :
    SemanticVersion.readNumbers? characters =
        some (version.major, version.minor, version.patch) ↔
      characters = version.characters := by
  rw [← split_eq_parts_iff]
  unfold SemanticVersion.readNumbers?
  constructor
  · intro read
    split at read
    · rename_i major minor patch cut
      simp only [Option.bind_eq_bind, Option.bind_eq_some_iff, Option.pure_def,
        Option.some.injEq, Prod.mk.injEq] at read
      obtain ⟨_, readMajor, _, readMinor, _, readPatch, rfl, rfl, rfl⟩ := read
      rw [cut, SemanticVersion.readNumber?_eq_some.1 readMajor,
        SemanticVersion.readNumber?_eq_some.1 readMinor,
        SemanticVersion.readNumber?_eq_some.1 readPatch]
      rfl
    · cases read
  · intro cut
    have numeral (number : UInt64) :
        SemanticVersion.readNumber? (Text.natural number.toNat) = some number :=
      SemanticVersion.readNumber?_eq_some.2 rfl
    rw [cut]
    simp only [parts, numeral]
    rfl

private theorem isDigit_or_dot {version : Version} {character : Char}
    (member : character ∈ version.characters) : character.isDigit = true ∨ character = '.' := by
  rw [characters_eq_join, Text.join_eq_intercalate] at member
  rcases Text.of_mem_intercalate member with dot | ⟨part, listed, inside⟩
  · exact .inr (List.mem_singleton.1 dot)
  · exact .inl (isDigit_of_mem_parts listed inside)

/-- A version is read where the grammar reads three numbers and nothing behind them. -/
theorem ofCharacters?_eq_some_iff {characters : List Char} {version : Version} :
    ofCharacters? characters = some version ↔
      SemanticVersion.readNumbers? characters =
        some (version.major, version.minor, version.patch) := by
  constructor
  · intro read
    simp only [ofCharacters?, Option.bind_eq_bind, Option.bind_eq_some_iff] at read
    obtain ⟨parsed, parse, plain⟩ := read
    split at plain
    · rename_i empty
      rw [Bool.and_eq_true, List.isEmpty_iff, List.isEmpty_iff] at empty
      rw [← Option.some.inj plain]
      exact SemanticVersion.readNumbers?_of_plain parse empty.1 empty.2
    · cases plain
  · intro read
    have unmarked : ∀ mark : Char, mark.isDigit = false → mark ≠ '.' → mark ∉ characters := by
      intro mark noDigit noDot member
      rw [readNumbers?_eq_some.1 read] at member
      rcases isDigit_or_dot member with digit | dot
      · exact Bool.false_ne_true (noDigit.symm.trans digit)
      · exact noDot dot
    have parsed := SemanticVersion.ofCharacters?_of_readNumbers?
      (unmarked '+' rfl (by decide)) (unmarked '-' rfl (by decide)) read
    rw [ofCharacters?, parsed]
    rfl

/-- The reader of versions accepts exactly what is written. -/
theorem ofCharacters?_eq_some {characters : List Char} {version : Version} :
    ofCharacters? characters = some version ↔ characters = version.characters :=
  ofCharacters?_eq_some_iff.trans readNumbers?_eq_some

theorem isWord_characters (version : Version) : Text.IsWord version.characters := by
  constructor
  · simp [characters, Text.join]
  · intro character member
    rcases isDigit_or_dot member with digit | rfl
    · exact Text.isBlank_of_isDigit digit
    · decide

theorem ofText?_eq_some {text : String} {version : Version} :
    ofText? text = some version ↔ Text.trimmed text = version.toText := by
  rw [ofText?, ofCharacters?_eq_some, Text.trimmed, toText, String.ofList_inj]

theorem parse_eq_ok {text : String} {version : Version} :
    parse text = .ok version ↔ Text.trimmed text = version.toText := by
  rw [← ofText?_eq_some]
  unfold parse
  split
  · rename_i found read
    rw [read, Except.ok.injEq, Option.some.injEq]
  · rename_i unread
    simp [unread]

theorem parse_toText (version : Version) : parse version.toText = .ok version := by
  rw [parse_eq_ok, Text.trimmed, toText, String.toList_ofList,
    version.isWord_characters.trim_eq]

/-- A text is read as a version exactly if it is the version's own text between blanks;
any other text is reported as it stands.  So a version can be read back from its text, and
texts of one version differ only in the blanks around them. -/
theorem parse_accepts_own_text_only (text : String) :
    Text.IsTrimmed (Text.trimmed text).toList text.toList ∧
    (∀ version, parse text = .ok version ↔ Text.trimmed text = version.toText) ∧
    ((∀ version : Version, Text.trimmed text ≠ version.toText) ↔
      parse text = .error (.malformedVersion text)) ∧
    (∀ version, parse version.toText = .ok version) ∧
    ∀ (other : String) (version : Version), parse text = .ok version →
      parse other = .ok version → Text.trimmed text = Text.trimmed other := by
  refine ⟨?_, fun _ => parse_eq_ok, ?_, parse_toText, ?_⟩
  · rw [Text.trimmed, String.toList_ofList]
    exact Text.isTrimmed_trim text.toList
  · constructor
    · intro other
      cases read : parse text with
      | ok version => exact absurd (parse_eq_ok.1 read) (other version)
      | error fault =>
          unfold parse at read
          split at read
          · cases read
          · rw [← Except.error.inj read]
    · intro refused version same
      rw [parse_eq_ok.2 same] at refused
      cases refused
  · intro other version read otherRead
    rw [parse_eq_ok.1 read, parse_eq_ok.1 otherRead]

theorem parse_accepts_own_text_only_largest :
    parse "\u2003 18446744073709551615.0.10\n" = .ok ⟨18446744073709551615, 0, 10⟩ ∧
    Text.trimmed "\u2003 18446744073709551615.0.10\n" =
      Text.trimmed "18446744073709551615.0.10" ∧
    ∀ version : Version, Text.trimmed "18446744073709551616.0.10" ≠ version.toText := by
  have read : parse "\u2003 18446744073709551615.0.10\n" =
      .ok ⟨18446744073709551615, 0, 10⟩ := by
    decide +kernel
  have bare : parse "18446744073709551615.0.10" = .ok ⟨18446744073709551615, 0, 10⟩ := by
    decide +kernel
  have refused : parse "18446744073709551616.0.10" =
      .error (.malformedVersion "18446744073709551616.0.10") := by
    decide +kernel
  obtain ⟨_, _, _, _, same⟩ :=
    parse_accepts_own_text_only "\u2003 18446744073709551615.0.10\n"
  obtain ⟨_, _, other, _⟩ := parse_accepts_own_text_only "18446744073709551616.0.10"
  exact ⟨read, same _ _ read bare, other.2 refused⟩

end Version

end ElmAtlas
