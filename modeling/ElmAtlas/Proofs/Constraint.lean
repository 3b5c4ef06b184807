import ElmAtlas.Constraint
import ElmAtlas.Proofs.Text.Template
import ElmAtlas.Proofs.Version

/-!
# The text of a constraint

Which constraint a text denotes is decided by its words alone: five words denote a range,
one word a single version.  The only other thing that a text can say is a range whose
bounds are in the wrong order.  A text fits the template of a range exactly if it has
five words of the right kind, so the search for captures never has a choice.
-/

namespace ElmAtlas

namespace Version

theorem not_lt_self (version : Version) : ¬version < version := by
  intro less
  have before : version.precedes version = true := less
  simp [precedes] at before

@[simp] theorem ofCharacters?_characters (version : Version) :
    ofCharacters? version.characters = some version :=
  ofCharacters?_eq_some.2 rfl

theorem characters_injective {left right : Version}
    (same : left.characters = right.characters) : left = right := by
  have found := ofCharacters?_characters left
  rw [same, ofCharacters?_characters] at found
  exact (Option.some.inj found).symm

end Version

namespace Comparison

theorem ofCharacters?_eq_some {word : List Char} {comparison : Comparison} :
    ofCharacters? word = some comparison ↔ word = comparison.characters := by
  constructor
  · intro read
    unfold ofCharacters? at read
    split at read
    · rw [← Option.some.inj read]
      rfl
    · rw [← Option.some.inj read]
      rfl
    · cases read
  · rintro rfl
    cases comparison <;> rfl

@[simp] theorem ofCharacters?_characters (comparison : Comparison) :
    ofCharacters? comparison.characters = some comparison :=
  ofCharacters?_eq_some.2 rfl

theorem characters_injective {left right : Comparison}
    (same : left.characters = right.characters) : left = right := by
  have found := ofCharacters?_characters left
  rw [same, ofCharacters?_characters] at found
  exact (Option.some.inj found).symm

theorem isWord_characters (comparison : Comparison) : Text.IsWord comparison.characters := by
  cases comparison with
  | below => exact ⟨List.cons_ne_nil _ _, by simp [characters, Text.isBlank]⟩
  | atMost => exact ⟨List.cons_ne_nil _ _, by simp [characters, Text.isBlank]⟩

private theorem mem_signs {word : List Char} :
    word ∈ [['<', '='], ['<']] ↔ ∃ comparison : Comparison, comparison.characters = word := by
  constructor
  · intro listed
    rcases List.mem_pair.1 listed with rfl | rfl
    · exact ⟨.atMost, rfl⟩
    · exact ⟨.below, rfl⟩
  · rintro ⟨comparison, rfl⟩
    cases comparison <;> decide

end Comparison

namespace Constraint

/-- The words of a range. -/
def rangeWords (constraint : Constraint) : List (List Char) :=
  [constraint.low.characters, constraint.lowOp.characters, ['v'],
    constraint.highOp.characters, constraint.high.characters]

theorem rangeWords_ne_singleton (constraint : Constraint) (word : List Char) :
    constraint.rangeWords ≠ [word] := by
  intro same
  have lengths := congrArg List.length same
  simp [rangeWords] at lengths

/-- Words that denote a constraint; a single version may also be written alone. -/
def IsWrittenAs (constraint : Constraint) (words : List (List Char)) : Prop :=
  words = constraint.rangeWords ∨
    constraint.isExact = true ∧ words = [constraint.low.characters]

theorem isExact_iff {constraint : Constraint} :
    constraint.isExact = true ↔ constraint = exact constraint.low := by
  rw [isExact, Bool.and_eq_true, Bool.and_eq_true, beq_iff_eq, beq_iff_eq, beq_iff_eq]
  constructor
  · rintro ⟨⟨bounds, lowOp⟩, highOp⟩
    cases constraint
    simp only at bounds lowOp highOp
    subst bounds lowOp highOp
    rfl
  · intro same
    rw [same]
    exact ⟨⟨rfl, rfl⟩, rfl⟩

private theorem exact_low_le_high {constraint : Constraint} (single : constraint.isExact = true) :
    constraint.low ≤ constraint.high := by
  rw [isExact_iff.1 single]
  exact Version.not_lt_self _

theorem rangeWords_injective {left right : Constraint}
    (same : left.rangeWords = right.rangeWords) : left = right := by
  simp only [rangeWords, List.cons.injEq, and_true, true_and] at same
  obtain ⟨low, lowOp, highOp, high⟩ := same
  cases left
  cases right
  congr
  · exact Version.characters_injective low
  · exact Comparison.characters_injective lowOp
  · exact Comparison.characters_injective highOp
  · exact Version.characters_injective high

private theorem isWord_v : Text.IsWord ['v'] :=
  ⟨List.cons_ne_nil _ _, by simp [Text.isBlank]⟩

private theorem takes_gap {least : Nat} {taken : List Char} :
    (Text.TemplatePart.run Text.isBlank least).Takes taken ↔
      least ≤ taken.length ∧ Text.AreBlank taken :=
  Iff.rfl

private theorem takes_word {taken : List Char} :
    (Text.TemplatePart.run (fun character => !Text.isBlank character) 1).Takes taken ↔
      Text.IsWord taken := by
  simp only [Text.TemplatePart.Takes, Bool.not_eq_true', Nat.succ_le_iff, List.length_pos_iff]
  exact ⟨fun takes => ⟨takes.1, takes.2⟩, fun proper => ⟨proper.nonempty, proper.solid⟩⟩

private theorem takes_sign {taken : List Char} :
    (Text.TemplatePart.choice [['<', '='], ['<']]).Takes taken ↔
      ∃ comparison : Comparison, comparison.characters = taken :=
  Comparison.mem_signs

private theorem takes_v {taken : List Char} :
    (Text.TemplatePart.choice [['v']]).Takes taken ↔ ['v'] = taken := by
  rw [Text.TemplatePart.Takes, List.mem_singleton, eq_comm]

/-- A word behind a gap is parted from what stands before the gap. -/
private theorem gap_append {gap word rest : List Char}
    (takes : (Text.TemplatePart.run Text.isBlank 1).Takes gap) (proper : Text.IsWord word)
    (parted : ∀ first ∈ rest.head?, Text.isBlank first = true) :
    (∀ first ∈ (gap ++ (word ++ rest)).head?, Text.isBlank first = true) ∧
      Text.words (gap ++ (word ++ rest)) = word :: Text.words rest := by
  obtain ⟨nonempty, blank⟩ := takes
  constructor
  · intro first leads
    cases gap with
    | nil => exact absurd nonempty (by decide)
    | cons character others =>
        obtain rfl : character = first := Option.some.inj leads
        exact blank character List.mem_cons_self
  · rw [Text.words_blanks_append blank, Text.words_word_append proper parted]

private theorem takes_of_parted {gap word rest : List Char} (blank : Text.AreBlank gap)
    (proper : Text.IsWord word)
    (parted : ∀ first ∈ (gap ++ (word ++ rest)).head?, Text.isBlank first = true) :
    (Text.TemplatePart.run Text.isBlank 1).Takes gap := by
  refine ⟨?_, blank⟩
  cases gap with
  | nil =>
      obtain ⟨first, others, rfl⟩ := List.exists_cons_of_ne_nil proper.nonempty
      have visible := parted first rfl
      rw [proper.solid first List.mem_cons_self] at visible
      cases visible
  | cons character others => exact Nat.le_add_left 1 _

private theorem words_of_fits {text : List Char} {captures : List (List Char)}
    (fits : Text.Template.Fits rangeTemplate text captures) :
    ∃ low high, ∃ lowOp highOp : Comparison,
      captures = [low, lowOp.characters, highOp.characters, high] ∧
      Text.words text = [low, lowOp.characters, ['v'], highOp.characters, high] := by
  simp only [rangeTemplate, Text.Template.fits_pass, Text.Template.fits_capture,
    Text.Template.fits_nil, takes_word, takes_sign, takes_v] at fits
  obtain ⟨before, _, rfl, blankBefore, low, _, _, rfl, rfl, lowWord,
    first, _, rfl, firstGap, _, _, _, rfl, rfl, ⟨lowOp, rfl⟩,
    second, _, rfl, secondGap, _, _, rfl, rfl,
    third, _, rfl, thirdGap, _, _, _, rfl, rfl, ⟨highOp, rfl⟩,
    fourth, _, rfl, fourthGap, high, _, _, rfl, rfl, highWord,
    after, _, rfl, blankAfter, rfl, rfl⟩ := fits
  refine ⟨low, high, lowOp, highOp, rfl, ?_⟩
  have partedAfter : ∀ character ∈ (after ++ []).head?, Text.isBlank character = true := by
    intro character leads
    rw [List.append_nil] at leads
    exact blankAfter.2 character (List.mem_of_mem_head? leads)
  have highPart := gap_append fourthGap highWord partedAfter
  have highOpPart := gap_append thirdGap highOp.isWord_characters highPart.1
  have variablePart := gap_append secondGap isWord_v highOpPart.1
  have lowOpPart := gap_append firstGap lowOp.isWord_characters variablePart.1
  rw [Text.words_blanks_append blankBefore.2, Text.words_word_append lowWord lowOpPart.1,
    lowOpPart.2, variablePart.2, highOpPart.2, highPart.2,
    Text.words_blanks_append blankAfter.2]
  rfl

private theorem fits_of_words {text low high : List Char} {lowOp highOp : Comparison}
    (found : Text.words text =
      [low, lowOp.characters, ['v'], highOp.characters, high]) :
    Text.Template.Fits rangeTemplate text
      [low, lowOp.characters, highOp.characters, high] := by
  have has := Text.hasWords_words text
  rw [found] at has
  obtain ⟨before, _, rfl, blankBefore, lowWord, parted, has⟩ := has.exists_append
  obtain ⟨first, _, rfl, firstBlank, lowOpWord, partedLowOp, has⟩ := has.exists_append
  obtain ⟨second, _, rfl, secondBlank, variableWord, partedVariable, has⟩ := has.exists_append
  obtain ⟨third, _, rfl, thirdBlank, highOpWord, partedHighOp, has⟩ := has.exists_append
  obtain ⟨fourth, after, rfl, fourthBlank, highWord, _, has⟩ := has.exists_append
  have blankAfter : Text.AreBlank after := by
    cases has with
    | nil blank => exact blank
  have firstGap := takes_of_parted firstBlank lowOpWord parted
  have secondGap := takes_of_parted secondBlank variableWord partedLowOp
  have thirdGap := takes_of_parted thirdBlank highOpWord partedVariable
  have fourthGap := takes_of_parted fourthBlank highWord partedHighOp
  simp only [rangeTemplate, Text.Template.fits_pass, Text.Template.fits_capture,
    Text.Template.fits_nil, takes_word, takes_sign, takes_v]
  exact ⟨before, _, rfl, ⟨Nat.zero_le _, blankBefore⟩, low, _, _, rfl, rfl, lowWord,
    first, _, rfl, firstGap, _, _, _, rfl, rfl, ⟨lowOp, rfl⟩,
    second, _, rfl, secondGap, _, _, rfl, rfl,
    third, _, rfl, thirdGap, _, _, _, rfl, rfl, ⟨highOp, rfl⟩,
    fourth, _, rfl, fourthGap, high, _, _, rfl, rfl, highWord,
    after, _, List.append_nil after, ⟨Nat.zero_le _, blankAfter⟩, rfl, rfl⟩

/-- What the search captures is what the five words say. -/
theorem captures?_eq_some {text : List Char} {captures : List (List Char)} :
    rangeTemplate.captures? text = some captures ↔
      ∃ low high, ∃ lowOp highOp : Comparison,
        captures = [low, lowOp.characters, highOp.characters, high] ∧
        Text.words text = [low, lowOp.characters, ['v'], highOp.characters, high] := by
  constructor
  · intro found
    exact words_of_fits (Text.Template.fits_of_captures? found)
  · rintro ⟨low, high, lowOp, highOp, rfl, words⟩
    obtain ⟨captures, found⟩ :=
      Option.isSome_iff_exists.1 (fits_of_words words).isSome_captures?
    -- The words of the text leave only one way to fit.
    obtain ⟨_, _, _, _, rfl, same⟩ := words_of_fits (Text.Template.fits_of_captures? found)
    rw [words] at same
    obtain ⟨rfl, rest⟩ := List.cons.inj same
    simp only [List.cons.injEq, and_true, true_and] at rest
    obtain ⟨lowOpSame, highOpSame, rfl⟩ := rest
    rw [found, lowOpSame, highOpSame]

/-- What the words of a text say. -/
inductive Reading where
  | found (constraint : Constraint)
  | inverted
  | unreadable

/-- Five words make a range whose bounds are in order; one word is a bare version. -/
def readWords : List (List Char) → Reading
  | [low, lowOp, ['v'], highOp, high] =>
      match Version.ofCharacters? low, Comparison.ofCharacters? lowOp,
        Comparison.ofCharacters? highOp, Version.ofCharacters? high with
      | some low, some lowOp, some highOp, some high =>
          if high < low then .inverted else .found ⟨low, lowOp, highOp, high⟩
      | _, _, _, _ => .unreadable
  | [word] =>
      match Version.ofCharacters? word with
      | some version => .found (exact version)
      | none => .unreadable
  | _ => .unreadable

theorem readWords_rangeWords (constraint : Constraint) :
    readWords constraint.rangeWords =
      if constraint.high < constraint.low then .inverted else .found constraint := by
  simp only [readWords, rangeWords, Version.ofCharacters?_characters,
    Comparison.ofCharacters?_characters]

theorem readWords_version (version : Version) :
    readWords [version.characters] = .found (exact version) := by
  simp only [readWords, Version.ofCharacters?_characters]

/-- Words that denote nothing are not readable. -/
theorem readWords_eq_unreadable {words : List (List Char)}
    (other : ∀ constraint : Constraint, ¬constraint.IsWrittenAs words) :
    readWords words = .unreadable := by
  unfold readWords
  split
  · rename_i low lowOp highOp high
    split
    · rename_i lowVersion lowComparison highComparison highVersion readLow readLowOp
        readHighOp readHigh
      exfalso
      apply other ⟨lowVersion, lowComparison, highComparison, highVersion⟩
      left
      rw [rangeWords, Version.ofCharacters?_eq_some.1 readLow,
        Comparison.ofCharacters?_eq_some.1 readLowOp,
        Comparison.ofCharacters?_eq_some.1 readHighOp,
        Version.ofCharacters?_eq_some.1 readHigh]
    · rfl
  · rename_i word
    split
    · rename_i version read
      exfalso
      apply other (exact version)
      right
      rw [Version.ofCharacters?_eq_some.1 read]
      exact ⟨isExact_iff.2 rfl, rfl⟩
    · rfl
  · rfl

/-- What words can say: a range, a single version or nothing. -/
theorem readWords_cases (words : List (List Char)) :
    (∃ constraint : Constraint, words = constraint.rangeWords ∧
      readWords words =
        if constraint.high < constraint.low then .inverted else .found constraint) ∨
    (∃ version : Version, words = [version.characters] ∧
      readWords words = .found (exact version)) ∨
    (∀ constraint : Constraint, ¬constraint.IsWrittenAs words) ∧
      readWords words = .unreadable := by
  by_cases written : ∃ constraint : Constraint, constraint.IsWrittenAs words
  · obtain ⟨constraint, rfl | ⟨_, rfl⟩⟩ := written
    · exact .inl ⟨constraint, rfl, readWords_rangeWords constraint⟩
    · exact .inr (.inl ⟨constraint.low, rfl, readWords_version constraint.low⟩)
  · have other := not_exists.1 written
    exact .inr (.inr ⟨other, readWords_eq_unreadable other⟩)

private theorem readWords_eq_found {words : List (List Char)} {constraint : Constraint} :
    readWords words = .found constraint ↔
      constraint.low ≤ constraint.high ∧ constraint.IsWrittenAs words := by
  rcases readWords_cases words with ⟨range, rfl, read⟩ | ⟨version, rfl, read⟩ | ⟨other, read⟩
  · have own : constraint.IsWrittenAs range.rangeWords ↔ range = constraint := by
      constructor
      · rintro (same | ⟨_, same⟩)
        · exact rangeWords_injective same
        · exact absurd same (rangeWords_ne_singleton _ _)
      · rintro rfl
        exact .inl rfl
    rw [read, own]
    split
    · rename_i inverted
      constructor
      · intro found
        cases found
      · rintro ⟨ordered, rfl⟩
        exact absurd inverted ordered
    · rename_i ordered
      rw [Reading.found.injEq]
      constructor
      · rintro rfl
        exact ⟨ordered, rfl⟩
      · exact And.right
  · rw [read, Reading.found.injEq]
    constructor
    · rintro rfl
      exact ⟨exact_low_le_high (isExact_iff.2 rfl), .inr ⟨isExact_iff.2 rfl, rfl⟩⟩
    · rintro ⟨_, same | ⟨single, same⟩⟩
      · exact absurd same.symm (rangeWords_ne_singleton _ _)
      · rw [Version.characters_injective (List.singleton_inj.1 same)]
        exact (isExact_iff.1 single).symm
  · rw [read]
    constructor
    · intro found
      cases found
    · rintro ⟨_, written⟩
      exact absurd written (other constraint)

private theorem readWords_eq_inverted {words : List (List Char)} :
    readWords words = .inverted ↔
      ∃ constraint : Constraint, constraint.high < constraint.low ∧
        words = constraint.rangeWords := by
  constructor
  · intro inverted
    rcases readWords_cases words with ⟨range, same, read⟩ | ⟨version, _, read⟩ | ⟨_, read⟩
    · rw [inverted] at read
      split at read
      · rename_i above
        exact ⟨range, above, same⟩
      · cases read
    · rw [inverted] at read
      cases read
    · rw [inverted] at read
      cases read
  · rintro ⟨constraint, above, rfl⟩
    rw [readWords_rangeWords, if_pos above]

theorem readWords_eq_unreadable_iff {words : List (List Char)} :
    readWords words = .unreadable ↔
      ∀ constraint : Constraint, ¬constraint.IsWrittenAs words := by
  constructor
  · intro unreadable
    rcases readWords_cases words with ⟨range, _, read⟩ | ⟨version, _, read⟩ | ⟨other, _⟩
    · rw [unreadable] at read
      split at read
      · cases read
      · cases read
    · rw [unreadable] at read
      cases read
    · exact other
  · exact readWords_eq_unreadable

private theorem isWord_of_mem_rangeWords {constraint : Constraint} {word : List Char}
    (listed : word ∈ constraint.rangeWords) : Text.IsWord word := by
  simp only [rangeWords, List.mem_cons, List.not_mem_nil, or_false] at listed
  rcases listed with rfl | rfl | rfl | rfl | rfl
  · exact Version.isWord_characters _
  · exact Comparison.isWord_characters _
  · exact isWord_v
  · exact Comparison.isWord_characters _
  · exact Version.isWord_characters _

private theorem isWrittenAs_characters (constraint : Constraint) :
    constraint.IsWrittenAs (Text.words constraint.characters) := by
  unfold characters
  split
  · rename_i single
    right
    exact ⟨single, Text.words_of_isWord (Version.isWord_characters _)⟩
  · left
    exact Text.words_join (by decide) fun _ => isWord_of_mem_rangeWords

/-- What is answered to a text whose words say something. -/
def Reading.answer (text : String) : Reading → Except VersionFault Constraint
  | found constraint => .ok constraint
  | inverted => .error (.inverted text)
  | unreadable => .error (.malformed text)

private theorem ofText?_ofList {word : List Char} (proper : Text.IsWord word) :
    Version.ofText? (String.ofList word) = Version.ofCharacters? word := by
  rw [Version.ofText?, String.toList_ofList, proper.trim_eq]

private theorem ofText?_eq_some_iff_words {text : String} {version : Version} :
    Version.ofText? text = some version ↔ Text.words text.toList = [version.characters] := by
  rw [Text.words_eq_singleton_iff version.isWord_characters, Version.ofText?,
    Version.ofCharacters?_eq_some]

/-- The search for a range and the reader of bare versions together read the words. -/
private theorem parse_eq_readWords (text : String) :
    parse text = (readWords (Text.words text.toList)).answer text := by
  unfold parse
  cases search : rangeTemplate.captures? text.toList with
  | some captures =>
      obtain ⟨low, high, lowOp, highOp, rfl, words⟩ := captures?_eq_some.1 search
      have has := Text.hasWords_words text.toList
      rw [words] at has
      have lowWord : Text.IsWord low := has.isWord_of_mem (by simp)
      have highWord : Text.IsWord high := has.isWord_of_mem (by simp)
      simp only [words, readWords, Version.parse, ofText?_ofList lowWord, ofText?_ofList highWord,
        Comparison.ofCharacters?_characters]
      cases Version.ofCharacters? low with
      | none => rfl
      | some lowVersion =>
          cases Version.ofCharacters? high with
          | none => rfl
          | some highVersion =>
              by_cases above : highVersion < lowVersion <;> simp [above, Reading.answer]
  | none =>
      cases read : Version.ofText? text with
      | some version =>
          rw [ofText?_eq_some_iff_words.1 read, readWords_version]
          simp only [Version.parse, read, Reading.answer]
      | none =>
          have unreadable : readWords (Text.words text.toList) = .unreadable := by
            rcases readWords_cases (Text.words text.toList) with
              ⟨range, same, _⟩ | ⟨version, same, _⟩ | ⟨_, unreadable⟩
            · have fitting := captures?_eq_some.2 ⟨_, _, _, _, rfl, same⟩
              rw [search] at fitting
              cases fitting
            · rw [ofText?_eq_some_iff_words.2 same] at read
              cases read
            · exact unreadable
          rw [unreadable]
          simp only [Version.parse, read, Reading.answer]

theorem parse_cases (text : String) :
    (∃ constraint, readWords (Text.words text.toList) = .found constraint ∧
      parse text = .ok constraint) ∨
    (readWords (Text.words text.toList) = .inverted ∧ parse text = .error (.inverted text)) ∨
    readWords (Text.words text.toList) = .unreadable ∧ parse text = .error (.malformed text) := by
  rw [parse_eq_readWords]
  cases readWords (Text.words text.toList) with
  | found constraint => exact .inl ⟨constraint, rfl, rfl⟩
  | inverted => exact .inr (.inl ⟨rfl, rfl⟩)
  | unreadable => exact .inr (.inr ⟨rfl, rfl⟩)

theorem parse_eq_ok {text : String} {constraint : Constraint} :
    parse text = .ok constraint ↔
      constraint.low ≤ constraint.high ∧
        constraint.IsWrittenAs (Text.words text.toList) := by
  rw [← readWords_eq_found]
  rcases parse_cases text with ⟨found, read, answer⟩ | ⟨read, answer⟩ | ⟨read, answer⟩
  · rw [read, answer, Except.ok.injEq, Reading.found.injEq]
  · simp [read, answer]
  · simp [read, answer]

theorem parse_toText_iff (constraint : Constraint) :
    parse constraint.toText = .ok constraint ↔ constraint.low ≤ constraint.high := by
  rw [parse_eq_ok, toText, String.toList_ofList]
  exact and_iff_left (isWrittenAs_characters constraint)

/-- A text denotes a constraint exactly if the bounds are in order and its words are those
of the range or, for a single version, that version alone.  A range whose bounds are not in
order is reported as such, and every other text is malformed.  So a constraint can be read
back from its own text exactly if its bounds are in order. -/
theorem parse_decided_by_words (text : String) :
    Text.HasWords text.toList (Text.words text.toList) ∧
    (∀ constraint, parse text = .ok constraint ↔
      constraint.low ≤ constraint.high ∧ constraint.IsWrittenAs (Text.words text.toList)) ∧
    (parse text = .error (.inverted text) ↔
      ∃ constraint : Constraint, constraint.high < constraint.low ∧
        Text.words text.toList = constraint.rangeWords) ∧
    (parse text = .error (.malformed text) ↔
      ∀ constraint : Constraint, ¬constraint.IsWrittenAs (Text.words text.toList)) ∧
    (∀ fault, parse text = .error fault →
      fault = .inverted text ∨ fault = .malformed text) ∧
    ∀ constraint, parse constraint.toText = .ok constraint ↔
      constraint.low ≤ constraint.high := by
  refine ⟨Text.hasWords_words _, fun _ => parse_eq_ok, ?_, ?_, ?_, parse_toText_iff⟩
  · rw [← readWords_eq_inverted]
    rcases parse_cases text with ⟨found, read, answer⟩ | ⟨read, answer⟩ | ⟨read, answer⟩
    · simp [read, answer]
    · simp [read, answer]
    · simp [read, answer]
  · rw [← readWords_eq_unreadable_iff]
    rcases parse_cases text with ⟨found, read, answer⟩ | ⟨read, answer⟩ | ⟨read, answer⟩
    · simp [read, answer]
    · simp [read, answer]
    · simp [read, answer]
  · intro fault refused
    rcases parse_cases text with ⟨found, _, answer⟩ | ⟨_, answer⟩ | ⟨_, answer⟩
    · rw [refused] at answer
      cases answer
    · rw [refused] at answer
      exact .inl (Except.error.inj answer)
    · rw [refused] at answer
      exact .inr (Except.error.inj answer)

theorem parse_decided_by_words_inverted :
    (∃ constraint : Constraint, constraint.high < constraint.low ∧
      Text.words "\u20032.0.0\t<=\nv\u00A0<  1.0.0 ".toList = constraint.rangeWords) ∧
    (exact ⟨2, 0, 0⟩).IsWrittenAs (Text.words "2.0.0 <= v <= 2.0.0".toList) ∧
    ∀ constraint : Constraint,
      ¬constraint.IsWrittenAs (Text.words "2.0.0 <= v <=2.0.0".toList) := by
  obtain ⟨_, _, inverted, _⟩ := parse_decided_by_words "\u20032.0.0\t<=\nv\u00A0<  1.0.0 "
  obtain ⟨_, read, _⟩ := parse_decided_by_words "2.0.0 <= v <= 2.0.0"
  obtain ⟨_, _, _, malformed, _⟩ := parse_decided_by_words "2.0.0 <= v <=2.0.0"
  refine ⟨inverted.1 ?_, ((read _).1 ?_).2, malformed.1 ?_⟩
  all_goals decide +kernel

end Constraint

end ElmAtlas
