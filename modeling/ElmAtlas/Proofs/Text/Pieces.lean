import ElmAtlas.Text.Blank
import Mathlib.Data.List.Basic
import Mathlib.Data.List.TakeWhile

/-!
# Pieces, words and trimmed texts

How a text is cut at separators, which words it has and what is left of it without
the blanks around it.  Words and trimmed texts are described without the functions
that compute them: a text has words if blanks stand before, between and behind them.
-/

namespace ElmAtlas.Text

theorem split_eq_splitOnP (separates : Char → Bool) (characters : List Char) :
    split separates characters = characters.splitOnP separates := by
  induction characters with
  | nil => rfl
  | cons character rest induction =>
      rw [split, List.splitOnP_cons_eq_if_modifyHead, induction]
      by_cases separator : separates character = true
      · simp [separator]
      · obtain ⟨piece, pieces, whole⟩ :=
          List.exists_cons_of_ne_nil (List.splitOnP_ne_nil separates rest)
        simp [separator, whole]

/-- A piece holds characters of the text and no separator. -/
theorem of_mem_split {separates : Char → Bool} {characters piece : List Char}
    (member : piece ∈ split separates characters) {character : Char}
    (inside : character ∈ piece) :
    character ∈ characters ∧ separates character = false := by
  induction characters generalizing piece with
  | nil =>
      obtain rfl : piece = [] := by simpa [split] using member
      exact (List.not_mem_nil inside).elim
  | cons first rest induction =>
      rw [split_eq_splitOnP, List.splitOnP_cons_eq_if_modifyHead, ← split_eq_splitOnP] at member
      by_cases separator : separates first = true
      · rw [if_pos separator] at member
        rcases List.mem_cons.1 member with rfl | later
        · exact (List.not_mem_nil inside).elim
        · exact (induction later inside).imp_left (List.mem_cons_of_mem _)
      · rw [if_neg separator] at member
        obtain ⟨head, pieces, whole⟩ :=
          List.exists_cons_of_ne_nil (List.splitOnP_ne_nil separates rest)
        rw [split_eq_splitOnP, whole] at induction
        rw [split_eq_splitOnP, whole, List.modifyHead_cons] at member
        rcases List.mem_cons.1 member with rfl | later
        · rcases List.mem_cons.1 inside with rfl | behind
          · exact ⟨List.mem_cons_self, Bool.eq_false_iff.2 separator⟩
          · exact (induction List.mem_cons_self behind).imp_left (List.mem_cons_of_mem _)
        · exact (induction (List.mem_cons_of_mem _ later) inside).imp_left
            (List.mem_cons_of_mem _)

/-- A separator parts the pieces before it from those behind it. -/
theorem split_append_cons {separates : Char → Bool} {separator : Char}
    (separating : separates separator = true) (front behind : List Char) :
    split separates (front ++ separator :: behind) =
      split separates front ++ split separates behind := by
  simp only [split_eq_splitOnP]
  exact List.splitOnP_append_cons front behind separating

theorem of_mem_intercalate {separator : List Char} {pieces : List (List Char)}
    {character : Char} (inside : character ∈ separator.intercalate pieces) :
    character ∈ separator ∨ ∃ piece ∈ pieces, character ∈ piece := by
  induction pieces with
  | nil => simp at inside
  | cons first rest induction =>
      by_cases alone : rest = []
      · subst alone
        exact .inr ⟨first, List.mem_cons_self, by simpa using inside⟩
      · rw [List.intercalate_cons_of_ne_nil alone, List.append_assoc] at inside
        rcases List.mem_append.1 inside with front | behind
        · exact .inr ⟨first, List.mem_cons_self, front⟩
        · rcases List.mem_append.1 behind with between | later
          · exact .inl between
          · rcases induction later with between | ⟨piece, listed, member⟩
            · exact .inl between
            · exact .inr ⟨piece, List.mem_cons_of_mem _ listed, member⟩

theorem join_eq_intercalate (separator : List Char) (pieces : List (List Char)) :
    join separator pieces = separator.intercalate pieces := by
  fun_induction join separator pieces with
  | case1 => rfl
  | case2 piece => simp
  | case3 piece next pieces induction =>
      rw [List.intercalate_cons_of_ne_nil (by simp), induction]

/-- Cutting at a separator and joining with it are inverse. -/
theorem split_eq_iff {separator : Char} {characters : List Char} {pieces : List (List Char)}
    (nonempty : pieces ≠ []) (free : ∀ piece ∈ pieces, separator ∉ piece) :
    split (· == separator) characters = pieces ↔ characters = join [separator] pieces := by
  rw [split_eq_splitOnP, ← List.splitOn_eq_splitOnP, join_eq_intercalate]
  constructor
  · intro cut
    rw [← cut, List.intercalate_splitOn]
  · rintro rfl
    exact List.splitOn_intercalate separator free nonempty

theorem split_of_free {separator : Char} {piece : List Char} (free : separator ∉ piece) :
    split (· == separator) piece = [piece] := by
  rw [split_eq_iff (by simp) (by simpa using free)]
  rfl

theorem splitOnce_append {separator : Char} {before : List Char} (free : separator ∉ before)
    (after : List Char) :
    splitOnce separator (before ++ separator :: after) = some (before, after) := by
  induction before with
  | nil => simp [splitOnce]
  | cons first before induction =>
      rw [List.mem_cons, not_or] at free
      rw [List.cons_append, splitOnce, if_neg (Ne.symm free.1), induction free.2]
      rfl

theorem splitOnce_of_free {separator : Char} {characters : List Char}
    (free : separator ∉ characters) : splitOnce separator characters = none := by
  induction characters with
  | nil => rfl
  | cons first rest induction =>
      rw [List.mem_cons, not_or] at free
      rw [splitOnce, if_neg (Ne.symm free.1), induction free.2]
      rfl

/-- A text is cut at its first separator. -/
theorem splitOnce_eq_some {separator : Char} {characters before after : List Char} :
    splitOnce separator characters = some (before, after) ↔
      characters = before ++ separator :: after ∧ separator ∉ before := by
  constructor
  · intro found
    induction characters generalizing before with
    | nil => cases found
    | cons character rest induction =>
        rw [splitOnce] at found
        split at found
        · rename_i same
          cases found
          rw [same]
          exact ⟨rfl, List.not_mem_nil⟩
        · rename_i different
          obtain ⟨⟨front, behind⟩, cut, shape⟩ := Option.map_eq_some_iff.1 found
          cases shape
          obtain ⟨whole, free⟩ := induction cut
          rw [whole]
          refine ⟨rfl, ?_⟩
          rw [List.mem_cons, not_or]
          exact ⟨Ne.symm different, free⟩
  · intro whole
    rw [whole.1]
    exact splitOnce_append whole.2 after

def AreBlank (characters : List Char) : Prop :=
  ∀ character ∈ characters, isBlank character = true

theorem isBlankText_iff {text : String} : isBlankText text = true ↔ AreBlank text.toList :=
  List.all_eq_true

/-- What is left of a text without the blanks around it. -/
structure IsTrimmed (core text : List Char) : Prop where
  around : ∃ before after, AreBlank before ∧ AreBlank after ∧ text = before ++ core ++ after
  starts : ∀ first ∈ core.head?, isBlank first = false
  ends : ∀ last ∈ core.getLast?, isBlank last = false

theorem head?_trimStart {text : List Char} {first : Char}
    (leads : first ∈ (trimStart text).head?) : isBlank first = false := by
  have stopped := List.head?_dropWhile_not isBlank text
  rw [trimStart, Option.mem_def] at leads
  rwa [leads] at stopped

theorem trimStart_blanks_append {blanks core : List Char} (blank : AreBlank blanks)
    (starts : ∀ first ∈ core.head?, isBlank first = false) :
    trimStart (blanks ++ core) = core := by
  rw [trimStart, List.dropWhile_append_of_pos blank]
  cases core with
  | nil => rfl
  | cons first rest =>
      apply List.dropWhile_cons_of_neg
      rw [starts first rfl]
      exact Bool.false_ne_true

theorem trimEnd_eq (text : List Char) : trimEnd text = (trimStart text.reverse).reverse := rfl

private theorem trimEnd_append_blanks {core blanks : List Char} (blank : AreBlank blanks)
    (ends : ∀ last ∈ core.getLast?, isBlank last = false) :
    trimEnd (core ++ blanks) = core := by
  have blankReversed : AreBlank blanks.reverse := by
    intro character member
    exact blank character (List.mem_reverse.1 member)
  rw [trimEnd_eq, List.reverse_append, trimStart_blanks_append blankReversed,
    List.reverse_reverse]
  intro first leads
  rw [List.head?_reverse] at leads
  exact ends first leads

theorem exists_trimStart_append (text : List Char) :
    ∃ blanks, AreBlank blanks ∧ text = blanks ++ trimStart text :=
  ⟨text.takeWhile isBlank, fun _ member => List.mem_takeWhile_imp member,
    List.takeWhile_append_dropWhile.symm⟩

private theorem exists_trimEnd_append (text : List Char) :
    ∃ blanks, AreBlank blanks ∧ text = trimEnd text ++ blanks := by
  obtain ⟨blanks, blank, whole⟩ := exists_trimStart_append text.reverse
  refine ⟨blanks.reverse, ?_, ?_⟩
  · intro character member
    exact blank character (List.mem_reverse.1 member)
  · rw [trimEnd_eq, ← List.reverse_append, ← whole, List.reverse_reverse]

theorem isTrimmed_trim (text : List Char) : IsTrimmed (trim text) text := by
  obtain ⟨before, blankBefore, front⟩ := exists_trimStart_append text
  obtain ⟨after, blankAfter, behind⟩ := exists_trimEnd_append (trimStart text)
  constructor
  · refine ⟨before, after, blankBefore, blankAfter, ?_⟩
    rw [List.append_assoc, trim, ← behind]
    exact front
  · intro first leads
    -- The text begins as it did before its end was trimmed.
    have kept : (trimEnd (trimStart text)).head? = some first := leads
    have begins : first ∈ (trimStart text).head? := by
      rw [behind, List.head?_append, kept]
      rfl
    exact head?_trimStart begins
  · intro last closes
    rw [trim, trimEnd_eq, List.getLast?_reverse] at closes
    exact head?_trimStart closes

theorem IsTrimmed.trim_eq {core text : List Char} (trimmed : IsTrimmed core text) :
    trim text = core := by
  obtain ⟨⟨before, after, blankBefore, blankAfter, rfl⟩, starts, ends⟩ := trimmed
  rw [trim]
  by_cases nothing : core = []
  · subst nothing
    have blank : AreBlank (before ++ after) := by
      intro character member
      exact (List.mem_append.1 member).elim (blankBefore character) (blankAfter character)
    rw [List.append_nil, ← List.append_nil (before ++ after),
      trimStart_blanks_append blank (by simp)]
    rfl
  · have begins : ∀ first ∈ (core ++ after).head?, isBlank first = false := by
      intro first leads
      obtain ⟨character, characters, rfl⟩ := List.exists_cons_of_ne_nil nothing
      exact starts first leads
    rw [List.append_assoc, trimStart_blanks_append blankBefore begins,
      trimEnd_append_blanks blankAfter ends]

theorem trim_eq_nil {text : List Char} : trim text = [] ↔ AreBlank text := by
  constructor
  · intro nothing
    obtain ⟨before, after, blankBefore, blankAfter, whole⟩ := (isTrimmed_trim text).around
    rw [nothing, List.append_nil] at whole
    intro character member
    rw [whole] at member
    exact (List.mem_append.1 member).elim (blankBefore character) (blankAfter character)
  · intro blank
    have trimmed : IsTrimmed [] text := by
      refine ⟨⟨text, [], blank, by simp [AreBlank], by simp⟩, by simp, by simp⟩
    exact trimmed.trim_eq

structure IsWord (word : List Char) : Prop where
  nonempty : word ≠ []
  solid : ∀ character ∈ word, isBlank character = false

/-- A text that gives words in their order.  What follows a word begins with a blank,
so a word is as long as it can be. -/
inductive HasWords : List Char → List (List Char) → Prop where
  | nil {blanks : List Char} (blank : AreBlank blanks) : HasWords blanks []
  | cons {blanks word rest : List Char} {words : List (List Char)} (blank : AreBlank blanks)
      (proper : IsWord word) (parted : ∀ first ∈ rest.head?, isBlank first = true)
      (others : HasWords rest words) : HasWords (blanks ++ word ++ rest) (word :: words)

theorem IsWord.trim_eq {word : List Char} (proper : IsWord word) : trim word = word := by
  apply IsTrimmed.trim_eq
  refine ⟨⟨[], [], by simp [AreBlank], by simp [AreBlank], by simp⟩, ?_, ?_⟩
  · intro first leads
    exact proper.solid first (List.mem_of_mem_head? leads)
  · intro last closes
    exact proper.solid last (List.mem_of_mem_getLast? closes)

theorem words_cons_of_isBlank {character : Char} (blank : isBlank character = true)
    (text : List Char) : words (character :: text) = words text := by
  rw [words, splitNonempty, split, if_pos blank]
  rfl

theorem words_blanks_append {blanks : List Char} (blank : AreBlank blanks) (text : List Char) :
    words (blanks ++ text) = words text := by
  induction blanks with
  | nil => rfl
  | cons character blanks induction =>
      obtain ⟨first, rest⟩ := List.forall_mem_cons.1 blank
      rw [List.cons_append, words_cons_of_isBlank first, induction rest]

theorem words_word_append {word rest : List Char} (proper : IsWord word)
    (parted : ∀ first ∈ rest.head?, isBlank first = true) :
    words (word ++ rest) = word :: words rest := by
  have kept (pieces : List (List Char)) :
      (word :: pieces).filter (fun piece => !piece.isEmpty) =
        word :: pieces.filter (fun piece => !piece.isEmpty) := by
    apply List.filter_cons_of_pos
    simp [proper.nonempty]
  cases rest with
  | nil =>
      rw [List.append_nil, words, splitNonempty, split_eq_splitOnP,
        List.splitOnP_eq_singleton proper.solid, kept]
      rfl
  | cons first rest =>
      have blank : isBlank first = true := parted first rfl
      rw [words_cons_of_isBlank blank, words, splitNonempty, split_eq_splitOnP,
        List.splitOnP_append_cons_of_forall_mem proper.solid first blank, kept,
        ← split_eq_splitOnP]
      rfl

/-- A text with words begins with the first of them, perhaps behind blanks. -/
theorem HasWords.exists_append {text word : List Char} {words : List (List Char)}
    (has : HasWords text (word :: words)) :
    ∃ blanks rest, blanks ++ (word ++ rest) = text ∧ AreBlank blanks ∧ IsWord word ∧
      (∀ first ∈ rest.head?, isBlank first = true) ∧ HasWords rest words := by
  cases has with
  | @cons blanks word rest words blank proper parted others =>
      exact ⟨blanks, rest, (List.append_assoc _ _ _).symm, blank, proper, parted, others⟩

theorem HasWords.words_eq {text : List Char} {found : List (List Char)}
    (has : HasWords text found) : words text = found := by
  induction has with
  | @nil blanks blank =>
      rw [← List.append_nil blanks, words_blanks_append blank]
      rfl
  | cons blank proper parted others induction =>
      rw [List.append_assoc, words_blanks_append blank, words_word_append proper parted,
        induction]

theorem HasWords.exists_cons {text : List Char} {found : List (List Char)}
    (has : HasWords text found) (character : Char) :
    ∃ more, HasWords (character :: text) more := by
  by_cases blank : isBlank character = true
  · cases has with
    | nil blanks => exact ⟨[], .nil (List.forall_mem_cons.2 ⟨blank, blanks⟩)⟩
    | cons blanks proper parted others =>
        exact ⟨_, .cons (List.forall_mem_cons.2 ⟨blank, blanks⟩) proper parted others⟩
  · have visible : isBlank character = false := Bool.eq_false_iff.2 blank
    have alone : IsWord [character] := by
      constructor
      · exact List.cons_ne_nil _ _
      · intro other member
        rw [List.mem_singleton.1 member]
        exact visible
    have none : AreBlank [] := by simp [AreBlank]
    cases has with
    | nil blanks =>
        refine ⟨_, .cons none alone ?_ (.nil blanks)⟩
        intro first leads
        exact blanks first (List.mem_of_mem_head? leads)
    | @cons gap word rest words blanks proper parted others =>
        cases gap with
        | nil =>
            -- The character stands right before the first word and makes it longer.
            have longer : IsWord (character :: word) :=
              ⟨List.cons_ne_nil _ _, List.forall_mem_cons.2 ⟨visible, proper.solid⟩⟩
            exact ⟨_, .cons none longer parted others⟩
        | cons first gap =>
            refine ⟨_, .cons none alone ?_ (.cons blanks proper parted others)⟩
            intro next leads
            obtain rfl : first = next := by simpa using leads
            exact blanks first List.mem_cons_self

theorem hasWords_words (text : List Char) : HasWords text (words text) := by
  have exists_words : ∃ found, HasWords text found := by
    induction text with
    | nil => exact ⟨[], .nil (by simp [AreBlank])⟩
    | cons character text induction =>
        obtain ⟨found, has⟩ := induction
        exact has.exists_cons character
  obtain ⟨found, has⟩ := exists_words
  rw [has.words_eq]
  exact has

theorem words_of_isWord {word : List Char} (proper : IsWord word) : words word = [word] := by
  rw [← List.append_nil word, words_word_append proper (by simp), List.append_nil]
  rfl

theorem HasWords.isWord_of_mem {text word : List Char} {words : List (List Char)}
    (has : HasWords text words) (member : word ∈ words) : IsWord word := by
  induction has with
  | nil => cases member
  | cons blank proper parted others induction =>
      rcases List.mem_cons.1 member with rfl | later
      · exact proper
      · exact induction later

/-- A text of one word is that word between blanks. -/
theorem words_eq_singleton_iff {text word : List Char} (proper : IsWord word) :
    words text = [word] ↔ trim text = word := by
  constructor
  · intro alone
    have has := hasWords_words text
    rw [alone] at has
    obtain ⟨before, after, rfl, blankBefore, _, _, others⟩ := has.exists_append
    cases others with
    | nil blankAfter =>
        have trimmed : IsTrimmed word (before ++ (word ++ after)) := by
          refine ⟨⟨before, after, blankBefore, blankAfter, (List.append_assoc _ _ _).symm⟩, ?_, ?_⟩
          · exact fun first leads => proper.solid first (List.mem_of_mem_head? leads)
          · exact fun last closes => proper.solid last (List.mem_of_mem_getLast? closes)
        exact trimmed.trim_eq
  · intro core
    obtain ⟨before, after, blankBefore, blankAfter, whole⟩ := (isTrimmed_trim text).around
    rw [core] at whole
    have has : HasWords text [word] := by
      rw [whole]
      refine .cons blankBefore proper ?_ (.nil blankAfter)
      exact fun first leads => blankAfter first (List.mem_of_mem_head? leads)
    exact has.words_eq

/-- Words that are joined with a blank come apart again. -/
theorem words_join {separator : Char} (blank : isBlank separator = true)
    {pieces : List (List Char)} (proper : ∀ piece ∈ pieces, IsWord piece) :
    words (join [separator] pieces) = pieces := by
  fun_induction join [separator] pieces with
  | case1 => rfl
  | case2 piece => exact words_of_isWord (proper piece (List.mem_singleton_self _))
  | case3 piece next pieces induction =>
      obtain ⟨first, rest⟩ := List.forall_mem_cons.1 proper
      rw [List.append_assoc, List.singleton_append, words_word_append first,
        words_cons_of_isBlank blank, induction rest]
      intro leading leads
      obtain rfl : separator = leading := by simpa using leads
      exact blank

end ElmAtlas.Text
