import ElmAtlas.Toml.Quotation

/-!
# Written strings read back

Whatever form the writer picks for a string, the reader finds the string and
stops right behind the closing quotes.  Basic strings are treated character by
character: each is written in one of three ways, and both readers of basic
strings know all three.  In the forms over several lines the point is the quotes
that belong to the string: never three in a row, so the closing quotes are the
first three, except for those at the end, which the reader takes back.
-/

namespace ElmAtlas.Toml

theorem isControl_eq_false_iff {character : Char} :
    isControl character = false ↔ isPlain character = true ∨ character = '\n' := by
  by_cases tab : character = '\t'
  · simp [tab, isControl, isPlain]
  by_cases lineFeed : character = '\n'
  · simp [lineFeed, isControl]
  simp [isControl, isPlain, tab, lineFeed]

namespace Quotation

@[simp] theorem prepend_some (character : Char) (content rest : List Char) :
    prepend character (some (content, rest)) = some (character :: content, rest) :=
  rfl

/-- The ways to write a character in a basic string. -/
inductive Denotes : List Char → Char → Prop where
  | plain {character : Char} (allowed : isPlain character = true)
      (noQuote : character ≠ '"') (noBackslash : character ≠ '\\') :
      Denotes [character] character
  | short {escape character : Char} (known : shortEscape? escape = some character) :
      Denotes ['\\', escape] character
  | code {first second third fourth character : Char}
      (known : scalar? [first, second, third, fourth] = some character) :
      Denotes ['\\', 'u', first, second, third, fourth] character

private theorem scalar?_upperHexDigits {code : Nat} (small : code < 128) :
    scalar? ['0', '0', upperHexDigit (code / 16), upperHexDigit (code % 16)] =
      some (Char.ofNat code) := by
  revert code
  decide

theorem denotes_escapeCharacter {character : Char} (noQuote : character ≠ '"') :
    Denotes (escapeCharacter character) character := by
  unfold escapeCharacter
  split
  case h_7 _ _ lineFeed _ _ backslash =>
    split
    next control =>
      have small : character.toNat < 128 := by
        simp [isControl] at control
        omega
      refine .code ?_
      rw [scalar?_upperHexDigits small, Char.ofNat_toNat]
    next noControl =>
      have allowed : isPlain character = true :=
        (isControl_eq_false_iff.1 (Bool.eq_false_iff.2 noControl)).resolve_right lineFeed
      exact .plain allowed noQuote backslash
  all_goals exact .short rfl

/-- A character that stands for itself. -/
theorem readBasic_self {character : Char} (allowed : isPlain character = true)
    (noQuote : character ≠ '"') (noBackslash : character ≠ '\\') (rest : List Char) :
    readBasic (character :: rest) = prepend character (readBasic rest) := by
  -- The definition is opened as a whole: its equations are costly to derive one by one.
  rw [readBasic.eq_def]
  split
  case h_6 same =>
    obtain ⟨rfl, rfl⟩ := List.cons.inj same
    simp [allowed, noBackslash]
  all_goals simp_all

/-- A character that stands for itself: a quote does so unless two others follow. -/
theorem readLongBasic_self {character : Char} {rest : List Char}
    (allowed : isPlain character = true ∨ character = '\n') (noBackslash : character ≠ '\\')
    (few : character = '"' → ∀ behind, rest ≠ '"' :: '"' :: behind) :
    readLongBasic false (character :: rest) = prepend character (readLongBasic false rest) := by
  have noReturn : character ≠ '\r' := by
    rintro rfl
    rcases allowed with plain | lineFeed
    · exact Bool.noConfusion plain
    · exact absurd lineFeed (by decide)
  rw [readLongBasic.eq_def]
  split
  case h_7 same =>
    obtain ⟨rfl, rfl⟩ := List.cons.inj same
    simp [allowed, noBackslash]
  all_goals simp_all

namespace Denotes

variable {written : List Char} {character : Char}

private theorem readBasic_append (denotes : Denotes written character) (rest : List Char) :
    readBasic (written ++ rest) = prepend character (readBasic rest) := by
  cases denotes with
  | plain allowed noQuote noBackslash => exact readBasic_self allowed noQuote noBackslash rest
  | short known =>
      unfold shortEscape? at known
      split at known <;> cases known <;> rfl
  | code known =>
      simp only [List.cons_append, List.nil_append]
      rw [readBasic.eq_def]
      simp only [known]

theorem exists_cons (denotes : Denotes written character) :
    ∃ first behind, written = first :: behind ∧ isPlain first = true ∧ first ≠ '"' := by
  cases denotes with
  | plain allowed noQuote _ => exact ⟨_, _, rfl, allowed, noQuote⟩
  | short _ => exact ⟨_, _, rfl, by decide, by decide⟩
  | code _ => exact ⟨_, _, rfl, by decide, by decide⟩

theorem readLongBasic_append (denotes : Denotes written character) (rest : List Char) :
    readLongBasic false (written ++ rest) = prepend character (readLongBasic false rest) := by
  cases denotes with
  | plain allowed noQuote noBackslash =>
      exact readLongBasic_self (.inl allowed) noBackslash fun quote => (noQuote quote).elim
  | short known =>
      unfold shortEscape? at known
      split at known <;> cases known <;> rfl
  | code known =>
      simp only [List.cons_append, List.nil_append]
      rw [readLongBasic.eq_def]
      simp only [known]

end Denotes

theorem exists_writeBasic_cons (character : Char) (content : List Char) :
    ∃ written, writeBasic (character :: content) = written ++ writeBasic content ∧
      Denotes written character := by
  refine ⟨_, List.flatMap_cons, ?_⟩
  split
  next quote =>
    obtain rfl := beq_iff_eq.1 quote
    exact .short rfl
  next noQuote => exact denotes_escapeCharacter (by simpa using noQuote)

theorem readBasic_writeBasic (content rest : List Char) :
    readBasic (writeBasic content ++ '"' :: rest) = some (content, rest) := by
  induction content with
  | nil => rfl
  | cons character content induction =>
      obtain ⟨written, whole, denotes⟩ := exists_writeBasic_cons character content
      rw [whole, List.append_assoc, denotes.readBasic_append, induction, prepend_some]

/-- A basic string does not begin with three quotes. -/
private theorem writeBasic_few {rest : List Char} (noQuote : rest.head? ≠ some '"')
    (content behind : List Char) :
    writeBasic content ++ '"' :: rest ≠ '"' :: '"' :: behind := by
  intro same
  cases content with
  | nil =>
      obtain rfl : rest = '"' :: behind := by simpa [writeBasic] using same
      exact noQuote rfl
  | cons character content =>
      obtain ⟨_, whole, denotes⟩ := exists_writeBasic_cons character content
      obtain ⟨first, others, rfl, _, other⟩ := denotes.exists_cons
      rw [whole, List.cons_append, List.cons_append, List.cons.injEq] at same
      exact other same.1

private theorem readLiteral_append {content : List Char}
    (allowed : ∀ character ∈ content, isPlain character = true ∧ character ≠ '\'')
    (rest : List Char) :
    readLiteral (content ++ '\'' :: rest) = some (content, rest) := by
  induction content with
  | nil => rfl
  | cons character content induction =>
      obtain ⟨⟨plain, noQuote⟩, others⟩ := List.forall_mem_cons.1 allowed
      simp [readLiteral, plain, induction others]

/-- Quotes at the end of a string are found behind the closing ones. -/
private theorem closeQuotes_eq {quote : Char} {rest : List Char}
    (noQuote : rest.head? ≠ some quote) :
    closeQuotes quote rest = some ([], rest) ∧
      closeQuotes quote (quote :: rest) = some ([quote], rest) ∧
        closeQuotes quote (quote :: quote :: rest) = some ([quote, quote], rest) := by
  match rest with
  | [] => simp [closeQuotes]
  | [first] =>
      simp only [List.head?_cons, ne_eq, Option.some.injEq] at noQuote
      simp [closeQuotes, noQuote]
  | first :: second :: behind =>
      simp only [List.head?_cons, ne_eq, Option.some.injEq] at noQuote
      simp [closeQuotes, noQuote]

theorem writeLongBasic_quote (run : Nat) (content : List Char) :
    writeLongBasic run ('"' :: content) =
      if run = 2 then '\\' :: '"' :: writeLongBasic 0 content
      else '"' :: writeLongBasic (run + 1) content := by
  simp [writeLongBasic]

/-- Every other character is written without regard to the quotes before it. -/
theorem exists_writeLongBasic_cons {character : Char} (noQuote : character ≠ '"')
    (run : Nat) (content : List Char) :
    ∃ written, writeLongBasic run (character :: content) = written ++ writeLongBasic 0 content ∧
      (∃ first behind, written = first :: behind ∧
        (character ≠ '\n' → isPlain first = true) ∧ first ≠ '"') ∧
      ∀ rest, readLongBasic false (written ++ rest) =
        prepend character (readLongBasic false rest) := by
  by_cases lineFeed : character = '\n'
  · subst lineFeed
    exact ⟨['\n'], rfl, ⟨_, _, rfl, fun other => (other rfl).elim, by decide⟩, fun _ => rfl⟩
  · have denotes := denotes_escapeCharacter noQuote
    obtain ⟨first, behind, whole, plain, other⟩ := denotes.exists_cons
    refine ⟨escapeCharacter character, ?_, ⟨first, behind, whole, fun _ => plain, other⟩,
      denotes.readLongBasic_append⟩
    rw [writeLongBasic] <;> simpa

/-- A quote is written as itself unless two others went before it, so what is
written begins with one only if the string does. -/
theorem head?_writeLongBasic_cons {run : Nat} {character : Char}
    (apart : character ≠ '"' ∨ run = 2) (content rest : List Char) :
    (writeLongBasic run (character :: content) ++ rest).head? ≠ some '"' := by
  by_cases quote : character = '"'
  · have full : run = 2 := apart.resolve_left (not_not_intro quote)
    rw [quote, writeLongBasic_quote, if_pos full]
    simp
  · obtain ⟨_, written, ⟨first, behind, rfl, _, noQuote⟩, _⟩ :=
      exists_writeLongBasic_cons quote run content
    simpa [written] using noQuote

/-- Behind a quote that is written as itself there are never two others of the
string, except for the ones that end it. -/
private theorem writeLongBasic_few {run : Nat} (notFull : run < 2) {content : List Char}
    (nonempty : content ≠ []) (notLast : ¬ (run = 0 ∧ content = ['"'])) (closing rest : List Char) :
    writeLongBasic (run + 1) content ++ closing ≠ '"' :: '"' :: rest := by
  intro same
  obtain ⟨second, behind, rfl⟩ := List.exists_cons_of_ne_nil nonempty
  by_cases apart : second ≠ '"' ∨ run + 1 = 2
  · exact head?_writeLongBasic_cons apart behind closing (by rw [same]; rfl)
  · obtain ⟨rfl, notSecond⟩ : second = '"' ∧ run + 1 ≠ 2 := by simpa using apart
    obtain rfl : run = 0 := by omega
    rw [writeLongBasic_quote, if_neg (by decide), List.cons_append, List.cons.injEq] at same
    obtain ⟨third, others, rfl⟩ : ∃ third others, behind = third :: others :=
      List.exists_cons_of_ne_nil (by rintro rfl; exact notLast ⟨rfl, rfl⟩)
    exact head?_writeLongBasic_cons (.inr rfl) others closing (by rw [same.2]; rfl)

theorem readLongBasic_writeLongBasic {rest : List Char} (noQuote : rest.head? ≠ some '"')
    (content : List Char) {run : Nat} (bounded : run ≤ 2) :
    readLongBasic false (writeLongBasic run content ++ '"' :: '"' :: '"' :: rest) =
      some (content, rest) := by
  obtain ⟨noneTaken, oneTaken, twoTaken⟩ := closeQuotes_eq noQuote
  induction content generalizing run with
  | nil => exact noneTaken
  | cons character content induction =>
      by_cases quote : character = '"'
      · subst quote
        rw [writeLongBasic_quote]
        by_cases full : run = 2
        · have denotes : Denotes ['\\', '"'] '"' := .short rfl
          rw [if_pos full]
          calc readLongBasic false (['\\', '"'] ++
                (writeLongBasic 0 content ++ '"' :: '"' :: '"' :: rest))
              = prepend '"' (readLongBasic false
                  (writeLongBasic 0 content ++ '"' :: '"' :: '"' :: rest)) :=
                denotes.readLongBasic_append _
            _ = some ('"' :: content, rest) := by
                rw [induction (Nat.zero_le 2), prepend_some]
        rw [if_neg full, List.cons_append]
        -- One or two quotes that end the string stand right before the closing ones: the
        -- reader closes with the first three and takes the others back.
        by_cases last : content = []
        · subst last
          exact oneTaken
        by_cases lastTwo : run = 0 ∧ content = ['"']
        · obtain ⟨rfl, rfl⟩ := lastTwo
          exact twoTaken
        have notFull : run < 2 := by omega
        rw [readLongBasic_self (.inl (by decide)) (by decide)
            fun _ => writeLongBasic_few notFull last lastTwo _,
          induction notFull, prepend_some]
      · obtain ⟨written, whole, _, reads⟩ := exists_writeLongBasic_cons quote run content
        rw [whole, List.append_assoc, reads, induction (Nat.zero_le 2), prepend_some]

private theorem longestRun_cons_self (target : Char) (current : Nat) (content : List Char) :
    longestRun target current (target :: content) = longestRun target (current + 1) content := by
  simp [longestRun]

private theorem longestRun_cons_of_ne {target character : Char} (other : character ≠ target)
    (current : Nat) (content : List Char) :
    longestRun target current (character :: content) =
      max current (longestRun target 0 content) := by
  simp [longestRun, other]

theorem le_longestRun (target : Char) (current : Nat) (content : List Char) :
    current ≤ longestRun target current content := by
  induction content generalizing current with
  | nil => exact Nat.le_refl current
  | cons character content induction =>
      by_cases same : character = target
      · rw [same, longestRun_cons_self]
        exact Nat.le_of_succ_le (induction (current + 1))
      · rw [longestRun_cons_of_ne same]
        exact Nat.le_max_left _ _

private theorem not_mem_of_longestRun_eq_zero {target : Char} {content : List Char}
    (none : longestRun target 0 content = 0) : target ∉ content := by
  induction content with
  | nil => exact List.not_mem_nil
  | cons character content induction =>
      by_cases same : character = target
      · have positive := le_longestRun target (0 + 1) content
        rw [same, longestRun_cons_self] at none
        omega
      · rw [longestRun_cons_of_ne same, Nat.max_eq_zero_iff] at none
        exact List.not_mem_cons_of_ne_of_not_mem (Ne.symm same) (induction none.2)

/-- A character that stands for itself: a quote does so unless two others follow. -/
theorem readLongLiteral_self {character : Char} {rest : List Char}
    (allowed : isControl character = false)
    (few : character = '\'' → ∀ behind, rest ≠ '\'' :: '\'' :: behind) :
    readLongLiteral (character :: rest) = prepend character (readLongLiteral rest) := by
  have noReturn : character ≠ '\r' := by
    rintro rfl
    exact Bool.noConfusion allowed
  rw [readLongLiteral]
  · rw [if_pos (by simpa using isControl_eq_false_iff.1 allowed)]
  · exact fun behind quote => few quote behind
  · exact fun _ carriageReturn => absurd carriageReturn noReturn

/-- In a string without three quotes in a row a quote has two others behind it
only at the end. -/
private theorem append_few {run : Nat} {content : List Char}
    (short : longestRun '\'' (run + 1) content ≤ 2) (nonempty : content ≠ [])
    (notLast : content ≠ ['\'']) (closing rest : List Char) :
    content ++ closing ≠ '\'' :: '\'' :: rest := by
  intro same
  match content with
  | [] => exact nonempty rfl
  | [second] => exact notLast (by simp_all)
  | second :: third :: others =>
      simp only [List.cons_append, List.cons.injEq] at same
      obtain ⟨rfl, rfl, _⟩ := same
      have long := le_longestRun '\'' (run + 1 + 1 + 1) others
      rw [longestRun_cons_self, longestRun_cons_self] at short
      omega

private theorem readLongLiteral_append {rest : List Char} (noQuote : rest.head? ≠ some '\'')
    {content : List Char} (allowed : ∀ character ∈ content, isControl character = false)
    {run : Nat} (short : longestRun '\'' run content ≤ 2) :
    readLongLiteral (content ++ '\'' :: '\'' :: '\'' :: rest) = some (content, rest) := by
  obtain ⟨noneTaken, oneTaken, twoTaken⟩ := closeQuotes_eq noQuote
  induction content generalizing run with
  | nil => simpa [readLongLiteral] using noneTaken
  | cons character content induction =>
      obtain ⟨noControl, others⟩ := List.forall_mem_cons.1 allowed
      by_cases quote : character = '\''
      · subst quote
        rw [longestRun_cons_self] at short
        by_cases last : content = []
        · subst last
          simpa [readLongLiteral] using oneTaken
        by_cases lastTwo : content = ['\'']
        · subst lastTwo
          simpa [readLongLiteral] using twoTaken
        rw [List.cons_append, readLongLiteral_self noControl
            fun _ => append_few short last lastTwo _,
          induction others short, prepend_some]
      · rw [longestRun_cons_of_ne quote] at short
        have later := induction others (Nat.le_trans (Nat.le_max_right _ _) short)
        rw [List.cons_append, readLongLiteral_self noControl fun same => (quote same).elim,
          later, prepend_some]

/-- What a form asks of a string; basic strings can be written for any. -/
def Form.Fits : Form → List Char → Prop
  | .basic, _ => True
  | .literal, content =>
      content ≠ [] ∧ ∀ character ∈ content, isPlain character = true ∧ character ≠ '\''
  | .longBasic, _ => True
  | .longLiteral, content =>
      (∀ character ∈ content, isControl character = false) ∧ longestRun '\'' 0 content ≤ 2

private theorem fits_formOf (content : List Char) : (formOf content).Fits content := by
  simp only [formOf]
  split
  · trivial
  rename_i notBasic
  split
  next fits =>
    simp only [Bool.and_eq_true, Bool.not_eq_true', List.any_eq_false, beq_iff_eq,
      List.contains_eq_mem, decide_eq_false_iff_not] at fits
    obtain ⟨⟨noControl, noQuote⟩, noLineEnd⟩ := fits
    constructor
    · rintro rfl
      exact notBasic rfl
    · intro character member
      have plain := isControl_eq_false_iff.1 (Bool.eq_false_iff.2 (noControl character member))
      refine ⟨plain.resolve_right ?_, ?_⟩
      · rintro rfl
        exact noLineEnd member
      · rintro rfl
        exact not_mem_of_longestRun_eq_zero noQuote member
  split
  · trivial
  split
  next fits => simpa [Form.Fits] using fits
  split
  · trivial
  · trivial

private theorem read_double {behind : List Char} (few : ∀ rest, behind ≠ '"' :: '"' :: rest) :
    read ('"' :: behind) = readBasic behind := by
  rw [read, readShort] <;> simp [few]

private theorem read_single {behind : List Char} (few : ∀ rest, behind ≠ '\'' :: '\'' :: rest) :
    read ('\'' :: behind) = readLiteral behind := by
  rw [read, readShort] <;> simp [few]

/-- A line end is put behind the opening quotes whenever one could be taken for
it, and only that one is skipped. -/
theorem skipFirstLineEnd_append {content text : List Char}
    (plain : '\n' ∉ content → ∃ first behind, text = first :: behind ∧ isPlain first = true) :
    skipFirstLineEnd ((if content.contains '\n' then ['\n'] else []) ++ text) = text := by
  by_cases lineEnd : '\n' ∈ content
  · simp [lineEnd, skipFirstLineEnd]
  · obtain ⟨first, behind, rfl, allowed⟩ := plain lineEnd
    have noLineFeed : first ≠ '\n' := by
      rintro rfl
      exact Bool.noConfusion allowed
    have noReturn : first ≠ '\r' := by
      rintro rfl
      exact Bool.noConfusion allowed
    simp [lineEnd, skipFirstLineEnd, noLineFeed, noReturn]

private theorem exists_plain_writeLongBasic {content : List Char} (noLineEnd : '\n' ∉ content)
    (rest : List Char) :
    ∃ first behind, writeLongBasic 0 content ++ '"' :: rest = first :: behind ∧
      isPlain first = true := by
  match content with
  | [] => exact ⟨_, _, rfl, by decide⟩
  | character :: content =>
      by_cases quote : character = '"'
      · subst quote
        exact ⟨_, _, rfl, by decide⟩
      · obtain ⟨_, whole, ⟨first, behind, rfl, plain, _⟩, _⟩ :=
          exists_writeLongBasic_cons quote 0 content
        rw [whole]
        exact ⟨_, _, rfl, plain (Ne.symm (List.ne_of_not_mem_cons noLineEnd))⟩

private theorem exists_plain_append {content : List Char}
    (allowed : ∀ character ∈ content, isControl character = false) (noLineEnd : '\n' ∉ content)
    (rest : List Char) :
    ∃ first behind, content ++ '\'' :: rest = first :: behind ∧ isPlain first = true := by
  match content with
  | [] => exact ⟨_, _, rfl, by decide⟩
  | character :: content =>
      have plain := isControl_eq_false_iff.1 (allowed character List.mem_cons_self)
      exact ⟨_, _, rfl, plain.resolve_right (Ne.symm (List.ne_of_not_mem_cons noLineEnd))⟩

theorem exists_write_eq_cons (content : List Char) :
    ∃ quote behind, write content = quote :: behind ∧ (quote = '"' ∨ quote = '\'') := by
  rw [write]
  split
  · exact ⟨_, _, rfl, .inl rfl⟩
  · exact ⟨_, _, rfl, .inr rfl⟩
  · exact ⟨_, _, rfl, .inl rfl⟩
  · exact ⟨_, _, rfl, .inr rfl⟩

/-- A written string is read back, up to what stands behind it. -/
theorem read_write (content : List Char) {rest : List Char}
    (noDouble : rest.head? ≠ some '"') (noSingle : rest.head? ≠ some '\'') :
    read (write content ++ rest) = some (content, rest) := by
  have fits := fits_formOf content
  rw [write]
  split
  next =>
    simp only [List.cons_append, List.nil_append, List.append_assoc]
    rw [read_double (writeBasic_few noDouble content), readBasic_writeBasic]
  next picked =>
    rw [picked] at fits
    obtain ⟨nonempty, allowed⟩ := fits
    simp only [List.cons_append, List.nil_append, List.append_assoc]
    rw [read_single, readLiteral_append allowed]
    intro behind same
    obtain ⟨first, others, rfl⟩ := List.exists_cons_of_ne_nil nonempty
    rw [List.cons_append, List.cons.injEq] at same
    exact (allowed first List.mem_cons_self).2 same.1
  next =>
    simp only [openLong, List.cons_append, List.nil_append, List.append_assoc]
    rw [read, skipFirstLineEnd_append fun noLineEnd => exists_plain_writeLongBasic noLineEnd _,
      readLongBasic_writeLongBasic noDouble content (Nat.zero_le 2)]
  next picked =>
    rw [picked] at fits
    obtain ⟨allowed, short⟩ := fits
    simp only [openLong, List.cons_append, List.nil_append, List.append_assoc]
    rw [read, skipFirstLineEnd_append fun noLineEnd => exists_plain_append allowed noLineEnd _,
      readLongLiteral_append noSingle allowed short]

end Quotation

end ElmAtlas.Toml
