import ElmAtlas.Proofs.Json.Grammar
import ElmAtlas.Proofs.Review.Report
import ElmAtlas.Proofs.Text.ByteOrder
import ElmAtlas.Proofs.Text.Pieces
import ElmAtlas.Proofs.Version
import Mathlib.Data.Prod.Lex

/-!
# The order of messages

The messages of a report are told by path, line and column.  Paths are compared by their
octets, and messages at one place keep the order in which the report tells them.
-/

namespace ElmAtlas.Review

open Json

namespace Message

/-- The octets of the path, then the line and the column of the start. -/
def place (message : Message) : List ℕ ×ₗ ℕ ×ₗ ℕ :=
  toLex (Octets.numbers message.path,
    toLex (message.region.start.line.toNat, message.region.start.column.toNat))

theorem isBefore_iff {left right : Message} :
    left.isBefore right = true ↔ left.place < right.place := by
  rw [place, place, Prod.Lex.toLex_lt_toLex, Prod.Lex.toLex_lt_toLex,
    Octets.strictMono_numbers.lt_iff_lt, Octets.strictMono_numbers.injective.eq_iff]
  simp [isBefore, UInt32.lt_iff_toNat_lt, UInt32.toNat_inj]

theorem place_eq_iff {left right : Message} :
    left.place = right.place ↔
      left.path = right.path ∧ left.region.start = right.region.start := by
  have start (left right : Position) :
      left = right ↔
        left.line.toNat = right.line.toNat ∧ left.column.toNat = right.column.toNat := by
    rw [UInt32.toNat_inj, UInt32.toNat_inj]
    cases left
    cases right
    exact Position.mk.injEq .. ▸ Iff.rfl
  rw [start, ← Octets.strictMono_numbers.injective.eq_iff]
  simp [place, Prod.ext_iff]

end Message

/-- Whether the first message may stand in front of the second one. -/
def inOrder (left right : Message) : Bool :=
  left.place ≤ right.place

theorem inOrder_trans (first second third : Message) (left : inOrder first second = true)
    (right : inOrder second third = true) : inOrder first third = true :=
  decide_eq_true (le_trans (of_decide_eq_true left) (of_decide_eq_true right))

theorem inOrder_total (left right : Message) :
    (inOrder left right || inOrder right left) = true := by
  simpa [inOrder] using le_total left.place right.place

section Sorting

variable (messages : List Message)

theorem sortMessages_eq : sortMessages messages = messages.mergeSort inOrder := by
  have same (left right : Message) : (!right.isBefore left) = inOrder left right := by
    rw [inOrder, Bool.eq_iff_iff, decide_eq_true_eq, Bool.not_eq_true', ← Bool.not_eq_true,
      Message.isBefore_iff, not_lt]
  simp only [sortMessages, same]

theorem sortMessages_perm : (sortMessages messages).Perm messages :=
  List.mergeSort_perm ..

theorem pairwise_sortMessages :
    (sortMessages messages).Pairwise fun left right => left.place ≤ right.place := by
  rw [sortMessages_eq]
  have sorted := List.pairwise_mergeSort inOrder_trans inOrder_total messages
  exact sorted.imp of_decide_eq_true

/-- What stands at one place stays in its order. -/
theorem filter_sortMessages {there : Message → Bool}
    (level : ∀ left right, there left = true → there right = true → left.place = right.place) :
    (sortMessages messages).filter there = messages.filter there := by
  have inOrder : (messages.filter there).Pairwise fun left right => inOrder left right = true := by
    refine List.pairwise_of_forall_mem_list fun left leftThere right rightThere => ?_
    have same := level left right (List.of_mem_filter leftThere) (List.of_mem_filter rightThere)
    exact decide_eq_true (le_of_eq same)
  -- The messages at the place are a part of the sorted list, and there are no others.
  have part : (messages.filter there).Sublist (sortMessages messages) := by
    rw [sortMessages_eq]
    exact List.sublist_mergeSort inOrder_trans inOrder_total inOrder List.filter_sublist
  have kept : (messages.filter there).Sublist ((sortMessages messages).filter there) := by
    simpa using part.filter there
  have length := ((sortMessages_perm messages).filter there).length_eq
  exact (kept.eq_of_length length.symm).symm

end Sorting

section Reports

variable {text : List Char} {document : Document}

/-- A document begins with a character that is not blank. -/
private theorem exists_mark_of_spells {rest : List Char} (spells : Spells text document rest) :
    ∃ mark ∈ text, Text.isBlank mark = false := by
  cases spells with
  | number written =>
      obtain ⟨isDigits, _, _, _⟩ := written
      obtain ⟨digit, digits, rfl⟩ := List.exists_cons_of_ne_nil isDigits.nonempty
      have isDigit := isDigits.digit digit List.mem_cons_self
      exact ⟨digit, by simp, Text.isBlank_of_isDigit isDigit⟩
  | _ => exact ⟨_, List.mem_cons_self, by decide⟩

private theorem not_areBlank_of_isDocument (isDocument : IsDocument text document) :
    ¬Text.AreBlank text := by
  obtain ⟨_, _, ⟨spaces, _, rfl⟩, spells, _⟩ := isDocument
  obtain ⟨mark, member, isMark⟩ := exists_mark_of_spells spells
  intro blank
  rw [blank mark (List.mem_append_right spaces member)] at isMark
  cases isMark

theorem parseReport_eq_ok (isDocument : IsDocument text document) {messages : List Message} :
    parseReport (String.ofList text) = .ok messages ↔
      ∃ files, report document = .ok (.problems files) ∧
        sortMessages (flatten files) = messages := by
  have spoken : ¬Text.isBlankText (String.ofList text) = true := by
    rw [Text.isBlankText_iff, String.toList_ofList]
    exact not_areBlank_of_isDocument isDocument
  rw [parseReport, if_neg spoken, bytes_of_isDocument report isDocument]
  cases decoded : report document with
  | error mismatch => simp
  | ok told => cases told <;> simp

/-- A text that is a document gives messages exactly if the document can be read and is a
report.  They are the messages that the report tells: none is lost, added or changed.  They
are sorted by the octets of the path, then by line and column, and the messages at one
place are told in the order of the report. -/
theorem report_told_in_order (isDocument : IsDocument text document) :
    ((∃ messages, parseReport (String.ofList text) = .ok messages) →
      document.isReadable nestingLimit = true ∧ ∃ told, IsReport document told) ∧
    (document.isReadable nestingLimit = true → ∀ told, IsReport document told →
      ∃ messages, parseReport (String.ofList text) = .ok messages ∧
        messages.Perm told ∧
        messages.Pairwise (fun left right => left.place ≤ right.place) ∧
        ∀ path start,
          messages.filter (fun message => message.path = path ∧ message.region.start = start) =
            told.filter (fun message => message.path = path ∧ message.region.start = start)) := by
  constructor
  · rintro ⟨messages, parsed⟩
    obtain ⟨files, decoded, _⟩ := (parseReport_eq_ok isDocument).1 parsed
    have readable : document.isReadable nestingLimit = true := by
      obtain ⟨_, split, _⟩ := bind_eq_ok.1 decoded
      exact Decode.readable_of_tagged split
    exact ⟨readable, _, (exists_report_iff readable).1 ⟨files, decoded, rfl⟩⟩
  · intro readable told isReport
    obtain ⟨files, decoded, rfl⟩ := (exists_report_iff readable).2 isReport
    refine ⟨_, (parseReport_eq_ok isDocument).2 ⟨files, decoded, rfl⟩, sortMessages_perm _,
      pairwise_sortMessages _, fun path start => ?_⟩
    refine filter_sortMessages _ fun left right leftThere rightThere => ?_
    rw [decide_eq_true_eq] at leftThere rightThere
    exact Message.place_eq_iff.2 ⟨leftThere.1.trans rightThere.1.symm,
      leftThere.2.trans rightThere.2.symm⟩

end Reports

def positionText (rest : List Char) : List Char :=
  '{' :: quoted "line" (':' :: '1' :: ',' :: quoted "column" (':' :: '1' :: '}' :: rest))

def positionDocument : Document :=
  .object [(some "line", word 1), (some "column", word 1)]

def fileText (path rule : String) (rest : List Char) : List Char :=
  '{' :: quoted "path" (':' :: quoted path (',' :: quoted "errors" (':' :: '[' ::
    '{' :: quoted "rule" (':' :: quoted rule (',' :: quoted "message" (':' :: quoted "m" (',' ::
      quoted "region" (':' :: '{' :: quoted "start" (':' :: positionText (',' ::
        quoted "end" (':' :: positionText ('}' :: '}' :: ']' :: '}' :: rest))))))))))))

def fileDocument (path rule : String) : Document :=
  .object [(some "path", .text (some path)), (some "errors", .array [.object [
    (some "rule", .text (some rule)), (some "message", .text (some "m")),
    (some "region", .object [(some "start", positionDocument), (some "end", positionDocument)])]])]

/-- The message of such a file. -/
def problemAt (path rule : String) : Message :=
  ⟨path, rule, "m", [], ⟨⟨1, 1⟩, ⟨1, 1⟩⟩⟩

def repeatedText : List Char :=
  '{' :: quoted "errors" (':' :: '[' :: fileText "b" "R" (',' :: fileText "a" "R" (',' ::
    fileText "b" "Q" (']' :: ',' :: quoted "type" (':' :: quoted "review-errors" ['}'])))))

def repeatedDocument : Document :=
  .object [
    (some "errors", .array [fileDocument "b" "R", fileDocument "a" "R", fileDocument "b" "Q"]),
    (some "type", .text (some "review-errors"))]

private theorem spells_fileText {path rule : String} (pathPlain : IsPlain path)
    (rulePlain : IsPlain rule)
    (rest : List Char) : Spells (fileText path rule rest) (fileDocument path rule) rest := by
  have written : Numeral.Writes ⟨false, ['1'], [], none⟩ ['1'] :=
    .intro ⟨by simp, by simp⟩ (by simp) .absent .absent
  have one (rest : List Char) : Spells ('1' :: rest) (word 1) rest :=
    .number written rest
  have place (rest : List Char) : Spells (positionText rest) positionDocument rest :=
    .object (spellsMembers_quoted_cons (by decide) (one _)
      (spellsMembers_quoted (by decide) (one _)))
  refine .object (spellsMembers_quoted_cons (by decide) (spells_quoted pathPlain _)
    (spellsMembers_quoted (by decide) (.array (.last (.refl _) (.object ?_) (.refl _)))))
  exact spellsMembers_quoted_cons (by decide) (spells_quoted rulePlain _) <|
    spellsMembers_quoted_cons (by decide) (spells_quoted (by decide) _) <|
    spellsMembers_quoted (by decide) <| .object <|
    spellsMembers_quoted_cons (by decide) (place _) (spellsMembers_quoted (by decide) (place _))

private theorem isDocument_repeatedText : IsDocument repeatedText repeatedDocument := by
  refine ⟨repeatedText, [], .refl _, .object ?_, .refl _⟩
  refine spellsMembers_quoted_cons (by decide) (.array ?_)
    (spellsMembers_quoted (by decide) (spells_quoted (by decide) _))
  exact .more (.refl _) (spells_fileText (by decide) (by decide) _) (.refl _) <|
    .more (.refl _) (spells_fileText (by decide) (by decide) _) (.refl _) <|
    .last (.refl _) (spells_fileText (by decide) (by decide) _) (.refl _)

private theorem isFile_fileDocument (path rule : String) :
    IsFile (fileDocument path rule) [problemAt path rule] := by
  have isPosition : IsPosition positionDocument ⟨1, 1⟩ :=
    ⟨_, .object (by decide), List.mem_cons_self, List.mem_of_getElem? (i := 1) rfl⟩
  refine ⟨_, path, _, .object (by simp [List.count_cons]), List.mem_cons_self,
    List.mem_of_getElem? (i := 1) rfl, .cons ?_ .nil⟩
  refine ⟨_, _, .object (by simp [List.count_cons]), rfl, List.mem_cons_self,
    List.mem_of_getElem? (i := 1) rfl, .inr ⟨by simp, rfl⟩,
    List.mem_of_getElem? (i := 2) rfl, ?_⟩
  exact ⟨_, _, _, .object (by simp [List.count_cons]), List.mem_cons_self, isPosition,
    List.mem_of_getElem? (i := 1) rfl, isPosition⟩

private theorem isReport_repeatedDocument :
    IsReport repeatedDocument [problemAt "b" "R", problemAt "a" "R", problemAt "b" "Q"] := by
  refine ⟨_, _, [[problemAt "b" "R"], [problemAt "a" "R"], [problemAt "b" "Q"]],
    .object (by simp [List.count_cons]), List.mem_of_getElem? (i := 1) rfl, List.mem_cons_self,
    ?_, rfl⟩
  exact .cons (isFile_fileDocument "b" "R") <| .cons (isFile_fileDocument "a" "R") <|
    .cons (isFile_fileDocument "b" "Q") .nil

/-- A file that is told twice keeps the order of its messages. -/
theorem report_told_in_order_repeated :
    ∃ messages, parseReport (String.ofList repeatedText) = .ok messages ∧
      messages.Perm [problemAt "b" "R", problemAt "a" "R", problemAt "b" "Q"] ∧
      messages.filter (fun message => message.path = "b" ∧ message.region.start = ⟨1, 1⟩) =
        [problemAt "b" "R", problemAt "b" "Q"] := by
  obtain ⟨messages, parsed, same, _, stable⟩ :=
    (report_told_in_order isDocument_repeatedText).2 (by decide) _ isReport_repeatedDocument
  refine ⟨messages, parsed, same, ?_⟩
  rw [stable]
  decide

end ElmAtlas.Review
