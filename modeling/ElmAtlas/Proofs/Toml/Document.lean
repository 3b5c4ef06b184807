import ElmAtlas.Proofs.Toml.Quotation
import ElmAtlas.Toml.Reader

/-!
# Lines of a document

A document is read line after line.  For each kind of line that a writer needs
there is one rule: if the line is put in front of a text that can be read, then
the whole can be read, and the line has done to the outline what it says.  The
rules are stated for any amount of fuel that exceeds the text, which is what
reading a document starts with.
-/

namespace ElmAtlas.Toml

namespace Outline

variable {entries inner : Entries} {table key : String}

theorem openElement_first (absent : entries.lookup key = none) :
    openElement [key] entries = some (entries ++ [(key, .tables [[]])]) := by
  simp [openElement, change, absent]

theorem openElement_next {elements : List Entries}
    (present : entries.lookup key = some (.tables elements)) :
    openElement [key] entries = some (replace key (.tables (elements ++ [[]])) entries) := by
  simp [openElement, change, present]

theorem openTable_new (absent : entries.lookup key = none) :
    openTable [key] entries = some (entries ++ [(key, .table .header [])]) := by
  simp [openTable, change, absent]

theorem insert_single (absent : entries.lookup key = none) (value : Value) :
    insert [key] value entries = some (entries ++ [(key, .value value)]) := by
  simp [insert, insertAt, change, absent]

theorem insertBelow_top (absent : entries.lookup key = none) (value : Value) :
    insertBelow [] [key] value entries = some (entries ++ [(key, .value value)]) :=
  insert_single absent value

private theorem insertBelow_table {origin : Origin}
    (present : entries.lookup table = some (.table origin inner))
    (absent : inner.lookup key = none) (value : Value) :
    insertBelow [table] [key] value entries =
      some (replace table (.table origin (inner ++ [(key, .value value)])) entries) := by
  simp [insertBelow, change, present, insert_single absent]

private theorem replace_last {before : Entries} (fresh : before.lookup key = none)
    (old item : Item) :
    replace key item (before ++ [(key, old)]) = before ++ [(key, item)] := by
  induction before with
  | nil => simp [replace]
  | cons entry before induction =>
      obtain ⟨head, content⟩ := entry
      by_cases same : head = key
      · simp [same] at fresh
      · have further : before.lookup key = none := by
          simpa [List.lookup_cons, beq_eq_false_iff_ne.2 (Ne.symm same)] using fresh
        rw [List.cons_append, replace, if_neg (by simpa using same), induction further]
        rfl

/-- A value goes to the end of the table that was opened last. -/
theorem insertBelow_last {before : Entries} (fresh : before.lookup table = none)
    (absent : inner.lookup key = none) (value : Value) :
    insertBelow [table] [key] value (before ++ [(table, .table .header inner)]) =
      some (before ++ [(table, .table .header (inner ++ [(key, .value value)]))]) := by
  have present : (before ++ [(table, Item.table .header inner)]).lookup table =
      some (.table .header inner) := by
    rw [List.lookup_append, fresh, Option.none_or, List.lookup_cons_self]
  rw [insertBelow_table present absent, replace_last fresh]

theorem insertBelow_element {earlier : List Entries}
    (present : entries.lookup table = some (.tables (earlier ++ [inner])))
    (absent : inner.lookup key = none) (value : Value) :
    insertBelow [table] [key] value entries =
      some (replace table (.tables (earlier ++ [inner ++ [(key, .value value)]])) entries) := by
  simp [insertBelow, change, present, insert_single absent]

end Outline

namespace Reader

/-- A key that needs no quotes. -/
structure IsBare (key : String) : Prop where
  nonempty : key.toList ≠ []
  bare : ∀ character ∈ key.toList, isBareKeyCharacter character = true

instance (key : String) : Decidable (IsBare key) :=
  decidable_of_iff (key.toList ≠ [] ∧ key.toList.all isBareKeyCharacter = true)
    ⟨fun ⟨nonempty, bare⟩ => ⟨nonempty, List.all_eq_true.1 bare⟩,
    fun ⟨nonempty, bare⟩ => ⟨nonempty, List.all_eq_true.2 bare⟩⟩

namespace IsBare

variable {key : String}

/-- A bare key begins with none of the marks that begin something else. -/
theorem exists_cons (bare : IsBare key) :
    ∃ first behind, key.toList = first :: behind ∧
      ∀ mark, isBareKeyCharacter mark = false → first ≠ mark := by
  obtain ⟨first, behind, whole⟩ := List.exists_cons_of_ne_nil bare.nonempty
  refine ⟨first, behind, whole, ?_⟩
  rintro _ notBare rfl
  have firstBare := bare.bare first (whole ▸ List.mem_cons_self)
  rw [firstBare] at notBare
  cases notBare

private theorem readSimpleKey?_append (bare : IsBare key) {next : Char}
    (ended : isBareKeyCharacter next = false) (rest : List Char) :
    readSimpleKey? (key.toList ++ next :: rest) = some (key, next :: rest) := by
  obtain ⟨first, behind, whole, other⟩ := bare.exists_cons
  have taken : (key.toList ++ next :: rest).takeWhile isBareKeyCharacter = key.toList := by
    rw [List.takeWhile_append_of_pos bare.bare, List.takeWhile_cons_of_neg (by simp [ended]),
      List.append_nil]
  have dropped : (key.toList ++ next :: rest).dropWhile isBareKeyCharacter = next :: rest := by
    rw [List.dropWhile_append_of_pos bare.bare, List.dropWhile_cons_of_neg (by simp [ended])]
  have noDouble : first ≠ '"' := other '"' rfl
  have noSingle : first ≠ '\'' := other '\'' rfl
  rw [whole, List.cons_append] at taken dropped ⊢
  rw [readSimpleKey?, taken, dropped, ← whole]
  · simp [bare.nonempty]
  · simpa using noDouble
  · simpa using noSingle

theorem skipBlanks_append (bare : IsBare key) (rest : List Char) :
    skipBlanks (key.toList ++ rest) = key.toList ++ rest := by
  obtain ⟨first, behind, whole, other⟩ := bare.exists_cons
  have noBlank : isBlank first = false := by
    simp [isBlank, other ' ' rfl, other '\t' rfl]
  rw [whole, List.cons_append, skipBlanks, List.dropWhile_cons_of_neg (by simp [noBlank])]

/-- A bare key ends where another character stands; the blanks behind it are skipped. -/
theorem readKey?_append (bare : IsBare key) {next mark : Char} {rest behind : List Char}
    (ended : isBareKeyCharacter next = false)
    (skipped : skipBlanks (next :: rest) = mark :: behind) (noDot : mark ≠ '.') :
    readKey? (nestingLimit - 1) (key.toList ++ next :: rest) = some ([key], mark :: behind) := by
  have parts : nestingLimit - 1 = 78 + 1 := rfl
  rw [parts, readKey?, bare.skipBlanks_append, bare.readSimpleKey?_append ended]
  simp [skipped, noDot]

theorem readHeader?_append (bare : IsBare key) (brackets rest : List Char) :
    readHeader? (']' :: brackets) (key.toList ++ ']' :: brackets ++ '\n' :: rest) =
      some ([key], rest) := by
  have named : readKey? (nestingLimit - 1) (key.toList ++ ']' :: (brackets ++ '\n' :: rest)) =
      some ([key], ']' :: (brackets ++ '\n' :: rest)) :=
    bare.readKey?_append rfl rfl (by decide)
  have ended : endLine? ('\n' :: rest) = some rest := rfl
  rw [readHeader?, List.append_assoc, List.cons_append, named]
  simp [ended]

end IsBare

/-- What is written is read as the value, when it is the rest of a line. -/
def Spells (written : List Char) (value : Value) : Prop :=
  ∀ fuel rest, 2 ≤ fuel →
    readValue? fuel (nestingLimit - 1) (skipBlanks (' ' :: written ++ '\n' :: rest)) =
      some (value, '\n' :: rest)

theorem spells_empty : Spells ['[', ']'] (.array []) := by
  intro fuel rest enough
  obtain ⟨fuel, rfl⟩ := Nat.exists_eq_add_of_le' enough
  rfl

theorem spells_boolean (value : Bool) :
    Spells (if value then "true" else "false").toList (.boolean value) := by
  intro fuel rest enough
  obtain ⟨fuel, rfl⟩ := Nat.exists_eq_add_of_le' enough
  cases value <;> rfl

theorem spells_text (text : String) :
    Spells (Quotation.write text.toList) (.text text) := by
  intro fuel rest enough
  obtain ⟨fuel, rfl⟩ := Nat.exists_eq_add_of_le' enough
  have string : Quotation.read (Quotation.write text.toList ++ '\n' :: rest) =
      some (text.toList, '\n' :: rest) :=
    Quotation.read_write text.toList (by simp) (by simp)
  obtain ⟨quote, behind, whole, mark⟩ := Quotation.exists_write_eq_cons text.toList
  rw [whole] at string ⊢
  calc readValue? (fuel + 2) (nestingLimit - 1)
        (skipBlanks (' ' :: quote :: behind ++ '\n' :: rest))
      = (Quotation.read (quote :: behind ++ '\n' :: rest)).map fun found =>
          (.text (String.ofList found.1), found.2) := by
        rcases mark with rfl | rfl <;> rfl
    _ = some (.text text, '\n' :: rest) := by
        rw [string, Option.map_some, String.ofList_toList]

/-- A line that begins with a bare key is an assignment. -/
private theorem IsBare.readLines?_append {key : String} (bare : IsBare key) (fuel : Nat)
    (header : List String) (entries : Outline.Entries) (behind : List Char) :
    readLines? (fuel + 1) header entries (key.toList ++ behind) =
      (readKey? (nestingLimit - 1) (key.toList ++ behind)).bind fun found =>
        match found.2 with
        | '=' :: rest =>
            (readValue? (rest.length + 1) (nestingLimit - 1) (skipBlanks rest)).bind fun read =>
              (Outline.insertBelow header found.1 read.1 entries).bind fun opened =>
                (endLine? read.2).bind (readLines? fuel header opened)
        | _ => none := by
  have skipped := bare.skipBlanks_append behind
  obtain ⟨first, others, whole, other⟩ := bare.exists_cons
  rw [whole, List.cons_append] at skipped ⊢
  have noComment : first ≠ '#' := other '#' rfl
  have noLineFeed : first ≠ '\n' := other '\n' rfl
  have noReturn : first ≠ '\r' := other '\r' rfl
  have noBracket : first ≠ '[' := other '[' rfl
  rw [readLines?, skipped]
  split
  case h_7 => rfl
  all_goals simp_all

/-- The text can be read to its end and leaves the outline `result`. -/
def Reads (header : List String) (entries : Outline.Entries) (characters : List Char)
    (result : Outline.Entries) : Prop :=
  ∀ fuel, characters.length < fuel → readLines? fuel header entries characters = some result

theorem reads_nil (header : List String) (entries : Outline.Entries) :
    Reads header entries [] entries := by
  intro fuel enough
  obtain ⟨fuel, rfl⟩ := Nat.exists_eq_add_of_le' enough
  rfl

namespace Reads

variable {header : List String} {entries result : Outline.Entries} {rest : List Char}
variable {key : String}

/-- One line costs one unit of fuel and at least one character. -/
theorem line {next : List String} {opened : Outline.Entries} {characters : List Char}
    (shorter : rest.length < characters.length)
    (step : ∀ fuel, readLines? (fuel + 1) header entries characters =
      readLines? fuel next opened rest)
    (later : Reads next opened rest result) : Reads header entries characters result := by
  intro fuel enough
  obtain ⟨fuel, rfl⟩ := Nat.exists_eq_add_of_le' (Nat.zero_lt_of_lt enough)
  rw [step]
  exact later fuel (by omega)

theorem blankLine (later : Reads header entries rest result) :
    Reads header entries ('\n' :: rest) result :=
  later.line (by simp) fun _ => rfl

theorem comment {comment : List Char} (plain : ∀ character ∈ comment, isPlain character = true)
    (later : Reads header entries rest result) :
    Reads header entries ('#' :: comment ++ '\n' :: rest) result := by
  have dropped : (comment ++ '\n' :: rest).dropWhile isPlain = '\n' :: rest := by
    rw [List.dropWhile_append_of_pos plain, List.dropWhile_cons_of_neg (by decide)]
  have ended : endLine? ('#' :: comment ++ '\n' :: rest) = some rest := by
    simp [endLine?, skipBlanks, isBlank, dropped]
  refine later.line (by simp; omega) fun fuel => ?_
  calc readLines? (fuel + 1) header entries ('#' :: comment ++ '\n' :: rest)
      = (endLine? ('#' :: comment ++ '\n' :: rest)).bind (readLines? fuel header entries) := rfl
    _ = readLines? fuel header entries rest := by rw [ended, Option.bind_some]

theorem element (bare : IsBare key) {opened : Outline.Entries}
    (opens : Outline.openElement [key] entries = some opened)
    (later : Reads [key] opened rest result) :
    Reads header entries ('[' :: '[' :: key.toList ++ ']' :: ']' :: '\n' :: rest) result := by
  have named : readHeader? [']', ']'] (key.toList ++ ']' :: ']' :: '\n' :: rest) =
      some ([key], rest) := by
    simpa using bare.readHeader?_append [']'] rest
  refine later.line (by simp; omega) fun fuel => ?_
  calc readLines? (fuel + 1) header entries
        ('[' :: '[' :: key.toList ++ ']' :: ']' :: '\n' :: rest)
      = (readHeader? [']', ']'] (key.toList ++ ']' :: ']' :: '\n' :: rest)).bind fun found =>
          (Outline.openElement found.1 entries).bind fun opened =>
            readLines? fuel found.1 opened found.2 := rfl
    _ = readLines? fuel [key] opened rest := by
        rw [named, Option.bind_some, opens, Option.bind_some]

theorem table (bare : IsBare key) {opened : Outline.Entries}
    (opens : Outline.openTable [key] entries = some opened)
    (later : Reads [key] opened rest result) :
    Reads header entries ('[' :: key.toList ++ ']' :: '\n' :: rest) result := by
  have named : readHeader? [']'] (key.toList ++ ']' :: '\n' :: rest) = some ([key], rest) := by
    simpa using bare.readHeader?_append [] rest
  obtain ⟨first, behind, whole, other⟩ := bare.exists_cons
  have noBracket : first ≠ '[' := other '[' rfl
  refine later.line (by simp; omega) fun fuel => ?_
  calc readLines? (fuel + 1) header entries ('[' :: key.toList ++ ']' :: '\n' :: rest)
      = (readHeader? [']'] (key.toList ++ ']' :: '\n' :: rest)).bind fun found =>
          (Outline.openTable found.1 entries).bind fun opened =>
            readLines? fuel found.1 opened found.2 := by
        rw [whole, readLines?]
        simp [skipBlanks, isBlank, noBracket]
    _ = readLines? fuel [key] opened rest := by
        rw [named, Option.bind_some, opens, Option.bind_some]

theorem assignment (bare : IsBare key) {written : List Char} {value : Value}
    (spelled : Spells written value) {opened : Outline.Entries}
    (inserts : Outline.insertBelow header [key] value entries = some opened)
    (later : Reads header opened rest result) :
    Reads header entries (key.toList ++ ' ' :: '=' :: ' ' :: written ++ '\n' :: rest) result := by
  have named : readKey? (nestingLimit - 1)
      (key.toList ++ ' ' :: '=' :: ' ' :: written ++ '\n' :: rest) =
        some ([key], '=' :: ' ' :: written ++ '\n' :: rest) := by
    rw [List.append_assoc]
    exact bare.readKey?_append rfl rfl (by decide)
  have read := spelled ((' ' :: written ++ '\n' :: rest).length + 1) rest (by simp)
  refine later.line (by simp; omega) fun fuel => ?_
  rw [List.append_assoc] at named ⊢
  rw [bare.readLines?_append, named, Option.bind_some]
  calc _ = (readValue? ((' ' :: written ++ '\n' :: rest).length + 1) (nestingLimit - 1)
          (skipBlanks (' ' :: written ++ '\n' :: rest))).bind fun read =>
            (Outline.insertBelow header [key] read.1 entries).bind fun opened =>
              (endLine? read.2).bind (readLines? fuel header opened) := rfl
    _ = readLines? fuel header opened rest := by
        rw [read, Option.bind_some, inserts]
        rfl

end Reads

end Reader

theorem read?_of_reads {text : String} {entries : Outline.Entries}
    (noMark : text.toList.head? ≠ some '\uFEFF')
    (reads : Reader.Reads [] [] text.toList entries) :
    read? text = some (.table (Item.entriesToValues entries)) := by
  have whole := reads (text.toList.length + 1) (Nat.lt_succ_self _)
  simp only [read?]
  split
  next mark => exact (noMark (by rw [mark]; rfl)).elim
  next => rw [whole, Option.map_some]

end ElmAtlas.Toml
