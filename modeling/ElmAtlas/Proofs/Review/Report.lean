import ElmAtlas.Proofs.Manifest.Records
import ElmAtlas.Review

/-!
# What a report tells

A report is a tagged record that lists files, and each file lists its problems.  The
relations below say which messages a document tells, in document order; the decoders
accept exactly the documents that tell some.
-/

namespace ElmAtlas.Review

open Json
open Json.Decode (IsRecord Slot Holds AreFieldsOf)
open Manifest (fieldOf fieldOf_fill_eq_ok spares_fieldOf served_of_holds served_of_absent)

def word (value : UInt32) : Document :=
  .number (some (.natural value.toNat))

def texts (values : List String) : Document :=
  .array (values.map fun value => .text (some value))

def IsPosition (document : Document) (position : Position) : Prop :=
  ∃ members, IsRecord ["line", "column"] document members ∧
    (some "line", word position.line) ∈ members ∧
    (some "column", word position.column) ∈ members

def IsRegion (document : Document) (region : Region) : Prop :=
  ∃ members start stop, IsRecord ["start", "end"] document members ∧
    (some "start", start) ∈ members ∧ IsPosition start region.start ∧
    (some "end", stop) ∈ members ∧ IsPosition stop region.stop

/-- One problem of the file at the path; its details may be left out. -/
def IsProblem (path : String) (document : Document) (message : Message) : Prop :=
  ∃ members region, IsRecord ["rule", "message", "details", "region"] document members ∧
    message.path = path ∧
    (some "rule", .text (some message.rule)) ∈ members ∧
    (some "message", .text (some message.message)) ∈ members ∧
    ((some "details", texts message.details) ∈ members ∨
      some "details" ∉ members.map Prod.fst ∧ message.details = []) ∧
    (some "region", region) ∈ members ∧ IsRegion region message.region

/-- A file with its problems, one after the other. -/
def IsFile (document : Document) (messages : List Message) : Prop :=
  ∃ members path problems, IsRecord ["path", "errors"] document members ∧
    (some "path", .text (some path)) ∈ members ∧
    (some "errors", .array problems) ∈ members ∧
    List.Forall₂ (IsProblem path) problems messages

/-- A report of problems, file by file. -/
def IsReport (document : Document) (messages : List Message) : Prop :=
  ∃ members files groups, IsRecord ["type", "errors"] document members ∧
    (some "type", .text (some "review-errors")) ∈ members ∧
    (some "errors", .array files) ∈ members ∧
    List.Forall₂ IsFile files groups ∧ messages = groups.flatten

section Values

variable {members : List (Option String × Document)} {name : String}

private theorem holds_word {value : UInt32} :
    Holds members name Decode.word value ↔ (some name, word value) ∈ members := by
  simp only [Holds, Decode.word_eq_ok, ← word.eq_1, exists_eq_right]

theorem holds_text {value : String} :
    Holds members name Decode.text value ↔ (some name, .text (some value)) ∈ members := by
  simp only [Holds, Decode.text_eq_ok, exists_eq_right]

theorem holds_texts {values : List String} :
    Holds members name (Decode.list Decode.text) values ↔ (some name, texts values) ∈ members := by
  have same {document : Document} :
      Decode.list Decode.text document = .ok values ↔ document = texts values := by
    simp only [Decode.list_eq_ok, Decode.items_eq_ok, Decode.text_eq_ok, texts]
    constructor
    · rintro ⟨documents, rfl, all⟩
      exact congrArg Document.array (List.forall₂_eq_eq_eq ▸ List.forall₂_map_right_iff.2 all)
    · rintro rfl
      exact ⟨_, rfl, List.forall₂_map_left_iff.2 (List.forall₂_same.2 fun _ _ => rfl)⟩
  simp only [Holds, same, exists_eq_right]

end Values

section Pairs

variable {draft α β γ : Type} {first second : String} {getFirst : draft → Option α}
  {setFirst : draft → α → draft} {getSecond : draft → Option β} {setSecond : draft → β → draft}
  {decodeFirst : Decoder α} {decodeSecond : Decoder β}

/-- Two places of a draft, each of which holds what was put there. -/
structure AreApart (getFirst : draft → Option α) (setFirst : draft → α → draft)
    (getSecond : draft → Option β) (setSecond : draft → β → draft) : Prop where
  first : ∀ draft value, getFirst (setFirst draft value) = some value
  second : ∀ draft value, getSecond (setSecond draft value) = some value
  firstKept : ∀ draft value, getFirst (setSecond draft value) = getFirst draft
  secondKept : ∀ draft value, getSecond (setFirst draft value) = getSecond draft

private theorem pairSlots (apart : AreApart getFirst setFirst getSecond setSecond)
    (different : first ≠ second) (decodeFirst : Decoder α) (decodeSecond : Decoder β) :
    Slot [fieldOf first getFirst setFirst decodeFirst false,
      fieldOf second getSecond setSecond decodeSecond false] first getFirst decodeFirst ∧
    Slot [fieldOf first getFirst setFirst decodeFirst false,
      fieldOf second getSecond setSecond decodeSecond false] second getSecond decodeSecond := by
  refine ⟨?_, ?_⟩ <;> constructor <;>
    simp [fieldOf_fill_eq_ok, spares_fieldOf, different, different.symm, apart.first,
      apart.second, apart.firstKept, apart.secondKept]

/-- A record of two fields that have to be there. -/
theorem pair_eq_ok (apart : AreApart getFirst setFirst getSecond setSecond)
    (different : first ≠ second) {blank : draft} (firstEmpty : getFirst blank = none)
    (secondEmpty : getSecond blank = none) {depth : Nat} {document : Document}
    (readable : document.isReadable depth = true) {title : String} {build : α → β → γ} {value : γ} :
    (do
      let draft ← Decode.draft .buffered title
        [fieldOf first getFirst setFirst decodeFirst false,
          fieldOf second getSecond setSecond decodeSecond false] blank document
      return build (← Decode.required first (getFirst draft))
        (← Decode.required second (getSecond draft))) = .ok value ↔
      ∃ members a b, IsRecord [first, second] document members ∧
        Holds members first decodeFirst a ∧ Holds members second decodeSecond b ∧
        build a b = value := by
  obtain ⟨firstSlot, secondSlot⟩ := pairSlots apart different decodeFirst decodeSecond
  have areFields : AreFieldsOf blank [fieldOf first getFirst setFirst decodeFirst false,
      fieldOf second getSecond setSecond decodeSecond false] := by
    refine ⟨?_, by simpa using different, by simp [firstEmpty, secondEmpty]⟩
    simp only [Decode.HaveSlots, List.forall_mem_cons]
    exact ⟨⟨_, _, _, firstSlot⟩, ⟨_, _, _, secondSlot⟩, by simp⟩
  constructor
  · intro decoded
    obtain ⟨filled, drafted, decoded⟩ := bind_eq_ok.1 decoded
    obtain ⟨a, firstRead, decoded⟩ := bind_eq_ok.1 decoded
    obtain ⟨b, secondRead, decoded⟩ := bind_eq_ok.1 decoded
    obtain ⟨members, isRecord, fill⟩ := Decode.of_draft areFields drafted
    exact ⟨members, a, b, isRecord, (firstSlot.required_eq_ok fill firstEmpty).1 firstRead,
      (secondSlot.required_eq_ok fill secondEmpty).1 secondRead, Except.ok.inj decoded⟩
  · rintro ⟨members, a, b, isRecord, firstHeld, secondHeld, rfl⟩
    have single {name : String} (listed : name ∈ [first, second]) :=
      isRecord.single areFields.distinct listed
    have served : ∀ field ∈ [fieldOf first getFirst setFirst decodeFirst false,
        fieldOf second getSecond setSecond decodeSecond false], field.IsServedBy members := by
      simp only [List.forall_mem_cons]
      exact ⟨served_of_holds (single (by simp)) firstHeld,
        served_of_holds (single (by simp)) secondHeld, by simp⟩
    obtain ⟨filled, drafted, fill⟩ :=
      Decode.exists_draft areFields isRecord (isRecord.whole readable) served
    exact bind_eq_ok.2 ⟨filled, drafted, bind_eq_ok.2
      ⟨a, (firstSlot.required_eq_ok fill firstEmpty).2 firstHeld, bind_eq_ok.2
        ⟨b, (secondSlot.required_eq_ok fill secondEmpty).2 secondHeld, rfl⟩⟩⟩

end Pairs

theorem exists_list_iff {α β : Type} {decode : Decoder α} {view : α → β}
    {tells : Document → β → Prop} {documents : List Document}
    (same : ∀ document ∈ documents, ∀ told,
      (∃ value, decode document = .ok value ∧ view value = told) ↔ tells document told)
    {told : List β} :
    (∃ values, Decode.list decode (.array documents) = .ok values ∧ values.map view = told) ↔
      List.Forall₂ tells documents told := by
  simp only [Decode.list, Decode.items_eq_ok]
  induction documents generalizing told with
  | nil => simp [eq_comm]
  | cons document documents induction =>
      obtain ⟨first, others⟩ := List.forall_mem_cons.1 same
      constructor
      · rintro ⟨_, _ | ⟨decoded, rest⟩, rfl⟩
        exact .cons ((first _).1 ⟨_, decoded, rfl⟩) ((induction others).1 ⟨_, rest, rfl⟩)
      · rintro (_ | ⟨isFirst, rest⟩)
        obtain ⟨value, decoded, rfl⟩ := (first _).2 isFirst
        obtain ⟨values, decodedRest, rfl⟩ := (induction others).2 rest
        exact ⟨value :: values, .cons decoded decodedRest, rfl⟩

/-- The message that a problem gives in the file at the path. -/
def messageOf (path : String) (problem : Problem) : Message :=
  ⟨path, problem.rule, problem.message, problem.details, problem.region⟩

/-- The messages of a file. -/
def messagesOf (file : FileProblems) : List Message :=
  file.problems.map (messageOf file.path)

theorem problemSlots :
    Slot problemFields "rule" (·.rule) Decode.text ∧
    Slot problemFields "message" (·.message) Decode.text ∧
    Slot problemFields "details" (·.details) (Decode.list Decode.text) ∧
    Slot problemFields "region" (·.region) region := by
  refine ⟨?_, ?_, ?_, ?_⟩ <;> constructor <;>
    simp [problemFields, fieldOf_fill_eq_ok, spares_fieldOf]

theorem areFields_problem : AreFieldsOf {} problemFields := by
  obtain ⟨rule, message, details, region⟩ := problemSlots
  refine ⟨?_, by decide, by simp [problemFields]⟩
  simp only [Decode.HaveSlots, problemFields, List.forall_mem_cons]
  exact ⟨⟨_, _, _, rule⟩, ⟨_, _, _, message⟩, ⟨_, _, _, details⟩, ⟨_, _, _, region⟩, by simp⟩

section Records

variable {document : Document} {depth : Nat} (readable : document.isReadable depth = true)

include readable

theorem position_eq_ok {value : Position} :
    position document = .ok value ↔ IsPosition document value := by
  refine (pair_eq_ok (by constructor <;> simp) (by decide) rfl rfl readable).trans ?_
  simp only [IsPosition, holds_word]
  constructor
  · rintro ⟨members, line, column, isRecord, lineMember, columnMember, rfl⟩
    exact ⟨members, isRecord, lineMember, columnMember⟩
  · rintro ⟨members, isRecord, lineMember, columnMember⟩
    exact ⟨members, _, _, isRecord, lineMember, columnMember, rfl⟩

theorem region_eq_ok {value : Region} :
    region document = .ok value ↔ IsRegion document value := by
  refine (pair_eq_ok (by constructor <;> simp) (by decide) rfl rfl readable).trans ?_
  constructor
  · rintro ⟨members, start, stop, isRecord, ⟨_, startMember, startRead⟩,
      ⟨_, stopMember, stopRead⟩, rfl⟩
    have parts := isRecord.readable readable
    exact ⟨members, _, _, isRecord,
      startMember, (position_eq_ok (parts _ startMember).2).1 startRead,
      stopMember, (position_eq_ok (parts _ stopMember).2).1 stopRead⟩
  · rintro ⟨members, _, _, isRecord, startMember, isStart, stopMember, isStop⟩
    have parts := isRecord.readable readable
    exact ⟨members, _, _, isRecord,
      ⟨_, startMember, (position_eq_ok (parts _ startMember).2).2 isStart⟩,
      ⟨_, stopMember, (position_eq_ok (parts _ stopMember).2).2 isStop⟩, rfl⟩

theorem exists_problem_iff {path : String} {told : Message} :
    (∃ value, problem document = .ok value ∧ messageOf path value = told) ↔
      IsProblem path document told := by
  obtain ⟨rule, message, details, regionSlot⟩ := problemSlots
  constructor
  · rintro ⟨value, decoded, rfl⟩
    obtain ⟨filled, drafted, decoded⟩ := bind_eq_ok.1 decoded
    obtain ⟨_, ruleRead, decoded⟩ := bind_eq_ok.1 decoded
    obtain ⟨_, messageRead, decoded⟩ := bind_eq_ok.1 decoded
    obtain ⟨_, regionRead, decoded⟩ := bind_eq_ok.1 decoded
    obtain rfl := Except.ok.inj decoded
    obtain ⟨members, isRecord, fill⟩ := Decode.of_draft areFields_problem drafted
    obtain ⟨_, regionMember, isRegion⟩ := (regionSlot.required_eq_ok fill rfl).1 regionRead
    refine ⟨members, _, isRecord, rfl, holds_text.1 ((rule.required_eq_ok fill rfl).1 ruleRead),
      holds_text.1 ((message.required_eq_ok fill rfl).1 messageRead), ?_, regionMember,
      (region_eq_ok (isRecord.readable readable _ regionMember).2).1 isRegion⟩
    cases held : filled.details with
    | none => exact .inr ⟨(details.get_eq_none_iff fill rfl).1 held, by simp [messageOf]⟩
    | some lines =>
        have member := holds_texts.1 ((details.get_eq_some_iff fill rfl).1 held)
        exact .inl (by simpa [messageOf] using member)
  · rintro ⟨members, _, isRecord, rfl, ruleMember, messageMember, detailsTold, regionMember,
      isRegion⟩
    have ruleHeld := holds_text.2 ruleMember
    have messageHeld := holds_text.2 messageMember
    have regionHeld : Holds members "region" region told.region :=
      ⟨_, regionMember, (region_eq_ok (isRecord.readable readable _ regionMember).2).2 isRegion⟩
    have single {name : String} (listed : name ∈ ["rule", "message", "details", "region"]) :=
      isRecord.single (by decide) listed
    have served : ∀ field ∈ problemFields, field.IsServedBy members := by
      simp only [problemFields, List.forall_mem_cons]
      refine ⟨served_of_holds (single (by simp)) ruleHeld,
        served_of_holds (single (by simp)) messageHeld, ?_,
        served_of_holds (single (by simp)) regionHeld, by simp⟩
      rcases detailsTold with member | ⟨absent, _⟩
      · exact served_of_holds (single (by simp)) (holds_texts.2 member)
      · exact served_of_absent absent
    obtain ⟨filled, drafted, fill⟩ :=
      Decode.exists_draft areFields_problem isRecord (isRecord.whole readable) served
    have detailsRead : filled.details.getD [] = told.details := by
      rcases detailsTold with member | ⟨absent, none⟩
      · rw [(details.get_eq_some_iff fill rfl).2 (holds_texts.2 member), Option.getD_some]
      · rw [(details.get_eq_none_iff fill rfl).2 absent, Option.getD_none, none]
    refine ⟨⟨told.rule, told.message, told.details, told.region⟩, ?_, rfl⟩
    rw [← detailsRead]
    exact bind_eq_ok.2 ⟨filled, drafted, bind_eq_ok.2
      ⟨_, (rule.required_eq_ok fill rfl).2 ruleHeld, bind_eq_ok.2
        ⟨_, (message.required_eq_ok fill rfl).2 messageHeld, bind_eq_ok.2
          ⟨_, (regionSlot.required_eq_ok fill rfl).2 regionHeld, rfl⟩⟩⟩⟩

theorem fileProblems_eq_ok {file : FileProblems} :
    fileProblems document = .ok file ↔
      ∃ members, IsRecord ["path", "errors"] document members ∧
        (some "path", .text (some file.path)) ∈ members ∧
        Holds members "errors" (Decode.list problem) file.problems := by
  refine (pair_eq_ok (by constructor <;> simp) (by decide) rfl rfl readable).trans ?_
  simp only [holds_text]
  constructor
  · rintro ⟨members, path, problems, isRecord, pathMember, held, rfl⟩
    exact ⟨members, isRecord, pathMember, held⟩
  · rintro ⟨members, isRecord, pathMember, held⟩
    exact ⟨members, _, _, isRecord, pathMember, held, rfl⟩

theorem exists_file_iff {told : List Message} :
    (∃ file, fileProblems document = .ok file ∧ messagesOf file = told) ↔
      IsFile document told := by
  have problems {members : List (Option String × Document)} {documents : List Document}
      (isRecord : IsRecord ["path", "errors"] document members)
      (member : (some "errors", .array documents) ∈ members) (path : String)
      {told : List Message} :
      (∃ values, Decode.list problem (.array documents) = .ok values ∧
          values.map (messageOf path) = told) ↔ List.Forall₂ (IsProblem path) documents told :=
    exists_list_iff fun _ listed _ => exists_problem_iff
      (Document.isReadable_of_mem_array (isRecord.readable readable _ member).2 listed)
  constructor
  · rintro ⟨file, decoded, rfl⟩
    obtain ⟨members, isRecord, pathMember, _, member, listed⟩ :=
      (fileProblems_eq_ok readable).1 decoded
    obtain ⟨documents, rfl, _⟩ := Decode.list_eq_ok.1 listed
    exact ⟨members, file.path, documents, isRecord, pathMember, member,
      (problems isRecord member file.path).1 ⟨_, listed, rfl⟩⟩
  · rintro ⟨members, path, documents, isRecord, pathMember, member, all⟩
    obtain ⟨values, listed, rfl⟩ := (problems isRecord member path).2 all
    exact ⟨⟨path, values⟩,
      (fileProblems_eq_ok readable).2 ⟨members, isRecord, pathMember, _, member, listed⟩, rfl⟩

end Records

theorem problemsSlot :
    Slot problemsFields "errors" (·.files) (Decode.list fileProblems) := by
  constructor <;> simp [problemsFields, fieldOf_fill_eq_ok]

theorem areFields_problems : AreFieldsOf {} problemsFields := by
  refine ⟨?_, by decide, by simp [problemsFields]⟩
  simp only [Decode.HaveSlots, problemsFields, List.forall_mem_cons]
  exact ⟨⟨_, _, _, problemsSlot⟩, by simp⟩

theorem flatten_eq (files : List FileProblems) : flatten files = (files.map messagesOf).flatten :=
  List.flatMap_def ..

section Reports

variable {document : Document} (readable : document.isReadable nestingLimit = true)

include readable

theorem report_eq_ok {files : List FileProblems} :
    report document = .ok (.problems files) ↔
      ∃ members, IsRecord ["type", "errors"] document members ∧
        (some "type", .text (some "review-errors")) ∈ members ∧
        Holds members "errors" (Decode.list fileProblems) files := by
  rw [report, bind_eq_ok]
  constructor
  · rintro ⟨⟨tag, body⟩, split, decoded⟩
    dsimp only at decoded
    by_cases isTag : tag = "review-errors"
    · subst isTag
      rw [if_pos (by simp)] at decoded
      obtain ⟨filled, drafted, decoded⟩ := bind_eq_ok.1 decoded
      obtain ⟨_, read, decoded⟩ := bind_eq_ok.1 decoded
      obtain rfl := Report.problems.inj (Except.ok.inj decoded)
      obtain ⟨others, bodyRecord, fill⟩ := Decode.of_draft areFields_problems drafted
      obtain ⟨members, isRecord, tagMember, _, rfl⟩ :=
        (Decode.tagged_isRecord_iff (by decide) readable).1 ⟨body, split, bodyRecord⟩
      obtain ⟨_, member, listed⟩ := (problemsSlot.required_eq_ok fill rfl).1 read
      exact ⟨members, isRecord, tagMember, _, (Decode.mem_untagged (by decide)).1 member, listed⟩
    · rw [if_neg (by simpa using isTag)] at decoded
      obtain ⟨_, _, decoded⟩ := bind_eq_ok.1 decoded
      obtain ⟨_, _, decoded⟩ := bind_eq_ok.1 decoded
      cases decoded
  · rintro ⟨members, isRecord, tagMember, _, member, listed⟩
    obtain ⟨body, split, bodyRecord⟩ : ∃ body,
        Decode.tagged "internally tagged enum RawReport" ["review-errors", "error"] document =
          .ok ("review-errors", body) ∧ IsRecord ["errors"] body (Decode.untagged members) :=
      (Decode.tagged_isRecord_iff (by decide) readable).2
        ⟨members, isRecord, tagMember, by simp, rfl⟩
    have held : Holds (Decode.untagged members) "errors" (Decode.list fileProblems) files :=
      ⟨_, (Decode.mem_untagged (by decide)).2 member, listed⟩
    have served : ∀ field ∈ problemsFields, field.IsServedBy (Decode.untagged members) := by
      simp only [problemsFields, List.forall_mem_singleton]
      exact served_of_holds (bodyRecord.single (by decide) (by simp)) held
    have whole : ∀ member ∈ Decode.untagged members,
        member.1.isSome = true ∧ member.2.isWhole = true := fun member listed =>
      isRecord.whole readable member (List.mem_of_mem_filter listed)
    obtain ⟨filled, drafted, fill⟩ :=
      Decode.exists_draft areFields_problems bodyRecord whole served
    refine ⟨_, split, ?_⟩
    dsimp only
    rw [if_pos (by simp)]
    exact bind_eq_ok.2 ⟨filled, drafted, bind_eq_ok.2
      ⟨files, (problemsSlot.required_eq_ok fill rfl).2 held, rfl⟩⟩

/-- The decoder accepts the documents that are reports, and no message is lost, added or
moved on the way. -/
theorem exists_report_iff {told : List Message} :
    (∃ files, report document = .ok (.problems files) ∧ flatten files = told) ↔
      IsReport document told := by
  have files {members : List (Option String × Document)} {documents : List Document}
      (isRecord : IsRecord ["type", "errors"] document members)
      (member : (some "errors", .array documents) ∈ members) {groups : List (List Message)} :
      (∃ values, Decode.list fileProblems (.array documents) = .ok values ∧
          values.map messagesOf = groups) ↔ List.Forall₂ IsFile documents groups :=
    exists_list_iff fun _ listed _ => exists_file_iff
      (Document.isReadable_of_mem_array (isRecord.readable readable _ member).2 listed)
  constructor
  · rintro ⟨values, decoded, rfl⟩
    obtain ⟨members, isRecord, tagMember, _, member, listed⟩ := (report_eq_ok readable).1 decoded
    obtain ⟨documents, rfl, _⟩ := Decode.list_eq_ok.1 listed
    exact ⟨members, documents, _, isRecord, tagMember, member,
      (files isRecord member).1 ⟨values, listed, rfl⟩, flatten_eq values⟩
  · rintro ⟨members, documents, groups, isRecord, tagMember, member, all, rfl⟩
    obtain ⟨values, listed, rfl⟩ := (files isRecord member).2 all
    exact ⟨values, (report_eq_ok readable).2 ⟨members, isRecord, tagMember, _, member, listed⟩,
      flatten_eq values⟩

end Reports

end ElmAtlas.Review
