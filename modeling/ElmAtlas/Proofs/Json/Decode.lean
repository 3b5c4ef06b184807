import ElmAtlas.Json.Decode
import ElmAtlas.Proofs.Outcome
import Mathlib.Data.List.Nodup

/-!
# What decoders accept

A record is read from the members of an object one after the other.  What counts in
the end is only which members there are: each field holds what its own member says,
the order does not matter, and members that belong to no field are skipped.
-/

namespace ElmAtlas.Json

namespace Document

mutual

/-- Whether the keys of every object are different. -/
def hasDistinctKeys : Document → Bool
  | .array items => haveDistinctKeys items
  | .object members => decide (members.map Prod.fst).Nodup && membersHaveDistinctKeys members
  | _ => true

def haveDistinctKeys : List Document → Bool
  | [] => true
  | item :: items => item.hasDistinctKeys && haveDistinctKeys items

def membersHaveDistinctKeys : List (Option String × Document) → Bool
  | [] => true
  | (_, value) :: members => value.hasDistinctKeys && membersHaveDistinctKeys members

end

theorem membersHaveDistinctKeys_iff {members : List (Option String × Document)} :
    membersHaveDistinctKeys members = true ↔
      ∀ member ∈ members, member.2.hasDistinctKeys = true := by
  induction members with
  | nil => simp [membersHaveDistinctKeys]
  | cons member members induction =>
      rw [membersHaveDistinctKeys, Bool.and_eq_true, induction, List.forall_mem_cons]

theorem hasDistinctKeys_object {members : List (Option String × Document)} :
    (Document.object members).hasDistinctKeys = true ↔
      (members.map Prod.fst).Nodup ∧ ∀ member ∈ members, member.2.hasDistinctKeys = true := by
  rw [hasDistinctKeys, Bool.and_eq_true, decide_eq_true_eq, membersHaveDistinctKeys_iff]

theorem areReadable_iff {depth : Nat} {items : List Document} :
    areReadable depth items = true ↔ ∀ item ∈ items, item.isReadable depth = true := by
  induction items with
  | nil => simp [areReadable]
  | cons item items induction =>
      rw [areReadable, Bool.and_eq_true, induction, List.forall_mem_cons]

theorem isReadable_of_mem_array {depth : Nat} {items : List Document}
    (readable : (Document.array items).isReadable depth = true) {item : Document}
    (member : item ∈ items) : item.isReadable (depth - 1) = true := by
  cases depth with
  | zero => cases readable
  | succ depth => exact areReadable_iff.1 readable item member

theorem membersAreReadable_iff {depth : Nat} {members : List (Option String × Document)} :
    membersAreReadable depth members = true ↔
      ∀ member ∈ members, member.1.isSome = true ∧ member.2.isReadable depth = true := by
  induction members with
  | nil => simp [membersAreReadable]
  | cons member members induction =>
      rw [membersAreReadable, Bool.and_eq_true, Bool.and_eq_true, induction,
        List.forall_mem_cons]

mutual

theorem isWhole_of_isReadable {depth : Nat} {document : Document}
    (readable : document.isReadable depth = true) : document.isWhole = true := by
  cases document with
  | null => rfl
  | boolean value => rfl
  | number value => rfl
  | text value => rfl
  | array items =>
      cases depth with
      | zero => cases readable
      | succ depth => exact areWhole_of_areReadable readable
  | object members =>
      cases depth with
      | zero => cases readable
      | succ depth => exact membersAreWhole_of_membersAreReadable readable
  | fault =>
      cases depth <;> cases readable

theorem areWhole_of_areReadable {depth : Nat} {items : List Document}
    (readable : areReadable depth items = true) : areWhole items = true := by
  cases items with
  | nil => rfl
  | cons item items =>
      rw [areReadable, Bool.and_eq_true] at readable
      rw [areWhole, Bool.and_eq_true]
      exact ⟨isWhole_of_isReadable readable.1, areWhole_of_areReadable readable.2⟩

theorem membersAreWhole_of_membersAreReadable {depth : Nat}
    {members : List (Option String × Document)}
    (readable : membersAreReadable depth members = true) : membersAreWhole members = true := by
  cases members with
  | nil => rfl
  | cons member members =>
      obtain ⟨key, value⟩ := member
      rw [membersAreReadable, Bool.and_eq_true, Bool.and_eq_true] at readable
      rw [membersAreWhole, Bool.and_eq_true]
      exact ⟨isWhole_of_isReadable readable.1.2,
        membersAreWhole_of_membersAreReadable readable.2⟩

end

end Document

namespace Decode

section Values

variable {α : Type} {decode : Decoder α}

theorem text_eq_ok {document : Document} {value : String} :
    text document = .ok value ↔ document = .text (some value) := by
  unfold text
  split <;> simp_all

theorem exists_text_iff {document : Document} :
    (∃ value, text document = .ok value) ↔ ∃ value, document = .text (some value) :=
  exists_congr fun _ => text_eq_ok

theorem word_eq_ok {document : Document} {value : UInt32} :
    word document = .ok value ↔ document = .number (some (.natural value.toNat)) := by
  constructor
  · intro decoded
    unfold word at decoded
    split at decoded
    · split at decoded
      · rename_i number small
        obtain rfl := Except.ok.inj decoded
        rw [UInt32.toNat_ofNat_of_lt' small]
      · cases decoded
    · cases decoded
    · cases decoded
  · rintro rfl
    rw [word, if_pos value.toNat_lt, UInt32.ofNat_toNat]

theorem textAs_eq_ok {parse : String → Except String α} {document : Document} {value : α} :
    textAs parse document = .ok value ↔
      ∃ content, document = .text (some content) ∧ parse content = .ok value := by
  rw [textAs, bind_eq_ok]
  refine exists_congr fun content => and_congr text_eq_ok ?_
  cases parse content <;> simp

theorem exists_items_iff {documents : List Document} :
    (∃ values, items decode documents = .ok values) ↔
      ∀ document ∈ documents, ∃ value, decode document = .ok value := by
  induction documents with
  | nil => simp [items]
  | cons document documents induction =>
      rw [List.forall_mem_cons, ← induction]
      simp only [items, bind_eq_ok]
      constructor
      · rintro ⟨_, first, decoded, rest, others, _⟩
        exact ⟨⟨first, decoded⟩, rest, others⟩
      · rintro ⟨⟨first, decoded⟩, rest, others⟩
        exact ⟨_, first, decoded, rest, others, rfl⟩

theorem items_eq_ok {documents : List Document} {values : List α} :
    items decode documents = .ok values ↔
      List.Forall₂ (fun document value => decode document = .ok value) documents values := by
  induction documents generalizing values with
  | nil => simp [items, eq_comm]
  | cons document documents induction =>
      simp only [items, bind_eq_ok]
      constructor
      · rintro ⟨first, decoded, rest, others, built⟩
        obtain rfl := Except.ok.inj built
        exact .cons decoded (induction.1 others)
      · rintro (_ | ⟨decoded, others⟩)
        exact ⟨_, decoded, _, induction.2 others, rfl⟩

theorem length_of_items {documents : List Document} {values : List α}
    (decoded : items decode documents = .ok values) : values.length = documents.length :=
  (items_eq_ok.1 decoded).length_eq.symm

theorem list_eq_ok {document : Document} {values : List α} :
    list decode document = .ok values ↔
      ∃ documents, document = .array documents ∧ items decode documents = .ok values := by
  unfold list
  split <;> simp_all

/-- The entries of a map can be decoded if each of them can. -/
theorem exists_members_iff {entries : List (Option String × Document)}
    {holds : String × α → Prop} :
    (∃ values, members decode entries = .ok values ∧ ∀ value ∈ values, holds value) ↔
      ∀ entry ∈ entries, ∃ name value, entry.1 = some name ∧ decode entry.2 = .ok value ∧
        holds (name, value) := by
  induction entries with
  | nil => simp [members]
  | cons entry entries induction =>
      obtain ⟨key, document⟩ := entry
      rw [List.forall_mem_cons, ← induction]
      cases key with
      | none => simp [members]
      | some name =>
          simp only [members, bind_eq_ok]
          constructor
          · rintro ⟨_, ⟨first, decoded, rest, others, built⟩, all⟩
            obtain rfl := Except.ok.inj built
            obtain ⟨head, tail⟩ := List.forall_mem_cons.1 all
            exact ⟨⟨name, first, rfl, decoded, head⟩, rest, others, tail⟩
          · rintro ⟨⟨_, first, same, decoded, head⟩, rest, others, tail⟩
            obtain rfl := Option.some.inj same
            exact ⟨_, ⟨first, decoded, rest, others, rfl⟩, List.forall_mem_cons.2 ⟨head, tail⟩⟩

theorem keys_of_members {entries : List (Option String × Document)}
    {values : List (String × α)} (decoded : members decode entries = .ok values) :
    entries.map Prod.fst = (values.map Prod.fst).map some := by
  induction entries generalizing values with
  | nil =>
      obtain rfl := Except.ok.inj decoded
      rfl
  | cons entry entries induction =>
      obtain ⟨key, document⟩ := entry
      cases key with
      | none => cases decoded
      | some name =>
          obtain ⟨first, _, decoded⟩ := bind_eq_ok.1 decoded
          obtain ⟨rest, others, decoded⟩ := bind_eq_ok.1 decoded
          obtain rfl := Except.ok.inj decoded
          rw [List.map_cons, List.map_cons, List.map_cons, induction others]

theorem map_eq_ok {document : Document} {named : NameMap α} :
    map decode document = .ok named ↔
      ∃ entries values, document = .object entries ∧ members decode entries = .ok values ∧
        named = NameMap.ofList values := by
  unfold map
  split
  · rename_i entries
    cases decoded : members decode entries <;> simp [decoded, Functor.map, Except.map, eq_comm]
  · simp_all

end Values

/-- An object has a member of this name, and it decodes to the value. -/
def Holds {α : Type} (members : List (Option String × Document)) (name : String)
    (decode : Decoder α) (value : α) : Prop :=
  ∃ document, (some name, document) ∈ members ∧ decode document = .ok value

section Records

variable {draft : Type} {fields : List (Field draft)}
  {members : List (Option String × Document)} {before after : draft}

/-- Filling a field leaves what is seen of the draft as it is. -/
def Field.Spares {β : Type} (field : Field draft) (view : draft → β) : Prop :=
  ∀ document before after, field.fill document before = .ok after → view after = view before

/-- Where a record keeps the value of one of its fields. -/
structure Slot {α : Type} (fields : List (Field draft)) (name : String)
    (get : draft → Option α) (decode : Decoder α) : Prop where
  listed : ∃ field ∈ fields, field.name = name
  filled : ∀ field ∈ fields, field.name = name →
    ∀ draft, field.isFilled draft = (get draft).isSome
  fills : ∀ field ∈ fields, field.name = name → ∀ document before after,
    field.fill document before = .ok after →
      ∃ value, decode document = .ok value ∧ get after = some value
  spares : ∀ field ∈ fields, field.name ≠ name → field.Spares get

/-- The field that a name stands for. -/
def fieldNamed? (fields : List (Field draft)) (name : String) : Option (Field draft) :=
  fields.find? (·.name == name)

theorem of_fieldNamed? {name : String} {field : Field draft}
    (found : fieldNamed? fields name = some field) : field ∈ fields ∧ field.name = name :=
  ⟨List.mem_of_find?_eq_some found, by simpa using List.find?_some found⟩

/-- What one member does to a draft. -/
theorem fillMembers_cons {key : Option String} {document : Document} :
    fillMembers fields ((key, document) :: members) before = .ok after ↔
      ∃ name, key = some name ∧
        ((∃ field next, fieldNamed? fields name = some field ∧ field.isFilled before = false ∧
            field.fill document before = .ok next ∧
            fillMembers fields members next = .ok after) ∨
          (fieldNamed? fields name = none ∧ document.isWhole = true ∧
            fillMembers fields members before = .ok after)) := by
  cases key with
  | none => simp [fillMembers]
  | some name =>
      simp only [fillMembers, ← fieldNamed?.eq_1, Option.some.injEq, exists_eq_left']
      cases fieldNamed? fields name with
      | none => cases document.isWhole <;> simp
      | some field => by_cases filled : field.isFilled before = true <;> simp [filled, bind_eq_ok]

namespace Slot

variable {α : Type} {name : String} {get : draft → Option α} {decode : Decoder α} {value : α}

theorem fieldNamed?_ne_none (slot : Slot fields name get decode) :
    fieldNamed? fields name ≠ none := by
  obtain ⟨field, listed, named⟩ := slot.listed
  intro unknown
  exact List.find?_eq_none.1 unknown field listed (beq_iff_eq.2 named)

/-- What a field holds stays there. -/
theorem keeps (slot : Slot fields name get decode)
    (filled : fillMembers fields members before = .ok after) (kept : get before = some value) :
    get after = some value := by
  induction members generalizing before with
  | nil =>
      obtain rfl := Except.ok.inj filled
      exact kept
  | cons member members induction =>
      obtain ⟨other, _, ⟨field, next, found, empty, fill, rest⟩ | ⟨_, _, rest⟩⟩ :=
        fillMembers_cons.1 filled
      · obtain ⟨listed, rfl⟩ := of_fieldNamed? found
        have different : field.name ≠ name := by
          intro same
          rw [slot.filled field listed same, kept] at empty
          cases empty
        exact induction rest ((slot.spares field listed different _ _ _ fill).trans kept)
      · exact induction rest kept

/-- A field holds what the member of its name says. -/
theorem get_of_mem (slot : Slot fields name get decode)
    (filled : fillMembers fields members before = .ok after) {document : Document}
    (member : (some name, document) ∈ members) :
    ∃ value, decode document = .ok value ∧ get after = some value := by
  induction members generalizing before with
  | nil => cases member
  | cons first members induction =>
      obtain ⟨key, own⟩ := first
      obtain ⟨other, rfl, step⟩ := fillMembers_cons.1 filled
      rcases List.mem_cons.1 member with here | later
      · obtain ⟨same, rfl⟩ := Prod.mk.inj here
        obtain rfl := Option.some.inj same
        rcases step with ⟨field, next, found, _, fill, rest⟩ | ⟨unknown, _⟩
        · obtain ⟨listed, named⟩ := of_fieldNamed? found
          obtain ⟨value, decoded, stored⟩ := slot.fills field listed named _ _ _ fill
          exact ⟨value, decoded, slot.keeps rest stored⟩
        · exact (slot.fieldNamed?_ne_none unknown).elim
      · rcases step with ⟨_, _, _, _, _, rest⟩ | ⟨_, _, rest⟩
        · exact induction rest later
        · exact induction rest later

theorem exists_mem (slot : Slot fields name get decode)
    (filled : fillMembers fields members before = .ok after) (empty : get before = none)
    (held : get after = some value) : Holds members name decode value := by
  induction members generalizing before with
  | nil =>
      obtain rfl := Except.ok.inj filled
      rw [empty] at held
      cases held
  | cons first members induction =>
      obtain ⟨key, document⟩ := first
      have further {next : draft} (rest : fillMembers fields members next = .ok after)
          (empty : get next = none) : Holds ((key, document) :: members) name decode value := by
        obtain ⟨found, member, decoded⟩ := induction rest empty
        exact ⟨found, List.mem_cons_of_mem _ member, decoded⟩
      obtain ⟨other, rfl, ⟨field, next, found, _, fill, rest⟩ | ⟨_, _, rest⟩⟩ :=
        fillMembers_cons.1 filled
      · obtain ⟨listed, rfl⟩ := of_fieldNamed? found
        by_cases named : field.name = name
        · obtain ⟨own, decoded, stored⟩ := slot.fills field listed named _ _ _ fill
          have same := slot.keeps rest stored
          rw [held] at same
          obtain rfl := Option.some.inj same
          exact ⟨document, by rw [named]; exact List.mem_cons_self, decoded⟩
        · exact further rest ((slot.spares field listed named _ _ _ fill).trans empty)
      · exact further rest empty

theorem get_eq_some_iff (slot : Slot fields name get decode)
    (filled : fillMembers fields members before = .ok after) (empty : get before = none) :
    get after = some value ↔ Holds members name decode value := by
  refine ⟨slot.exists_mem filled empty, ?_⟩
  rintro ⟨document, member, decoded⟩
  obtain ⟨own, ownDecoded, held⟩ := slot.get_of_mem filled member
  rw [decoded] at ownDecoded
  rw [held, Except.ok.inj ownDecoded]

theorem get_eq_none_iff (slot : Slot fields name get decode)
    (filled : fillMembers fields members before = .ok after) (empty : get before = none) :
    get after = none ↔ some name ∉ members.map Prod.fst := by
  constructor
  · intro stillEmpty member
    obtain ⟨⟨_, document⟩, member, rfl⟩ := List.mem_map.1 member
    obtain ⟨value, _, held⟩ := slot.get_of_mem filled member
    rw [stillEmpty] at held
    cases held
  · intro absent
    cases held : get after with
    | none => rfl
    | some value =>
        obtain ⟨document, member, _⟩ := slot.exists_mem filled empty held
        exact (absent (List.mem_map_of_mem member)).elim

theorem required_eq_ok (slot : Slot fields name get decode)
    (filled : fillMembers fields members before = .ok after) (empty : get before = none) :
    required name (get after) = .ok value ↔ Holds members name decode value := by
  rw [← slot.get_eq_some_iff filled empty]
  cases get after <;> simp [required]

end Slot

/-- A field takes every member of its name. -/
def Field.Takes (field : Field draft) (members : List (Option String × Document)) : Prop :=
  ∀ document, (some field.name, document) ∈ members →
    ∀ before, ∃ after, field.fill document before = .ok after

/-- Each field has a place of its own. -/
def HaveSlots (fields : List (Field draft)) : Prop :=
  ∀ field ∈ fields, ∃ (α : Type) (get : draft → Option α) (decode : Decoder α),
    Slot fields field.name get decode

theorem HaveSlots.isFilled_eq (slots : HaveSlots fields) {field other : Field draft}
    (listed : field ∈ fields) (otherListed : other ∈ fields) (different : field.name ≠ other.name)
    {document : Document} (fill : field.fill document before = .ok after) :
    other.isFilled after = other.isFilled before := by
  obtain ⟨_, get, _, slot⟩ := slots other otherListed
  rw [slot.filled other otherListed rfl, slot.filled other otherListed rfl,
    slot.spares field listed different _ _ _ fill]

theorem unique_of_single {name : String}
    (single : (members.map Prod.fst).count (some name) ≤ 1) {left right : Document}
    (leftMember : (some name, left) ∈ members) (rightMember : (some name, right) ∈ members) :
    left = right := by
  have few : (members.filter (·.1 == some name)).length ≤ 1 := by
    rwa [List.count, List.countP_map, List.countP_eq_length_filter] at single
  have found {document : Document} (member : (some name, document) ∈ members) :
      (some name, document) ∈ members.filter (·.1 == some name) :=
    List.mem_filter.2 ⟨member, beq_self_eq_true _⟩
  have some := List.length_pos_of_mem (found leftMember)
  obtain ⟨only, isOnly⟩ := List.length_eq_one_iff.1 (Nat.le_antisymm few some)
  rw [isOnly] at found
  obtain rfl := List.mem_singleton.1 (found leftMember)
  exact (Prod.mk.inj (List.mem_singleton.1 (found rightMember))).2.symm

/-- Members from which fields of these names can be read. -/
structure AreProperFor (names : List String) (members : List (Option String × Document)) :
    Prop where
  single : ∀ name ∈ names, (members.map Prod.fst).count (some name) ≤ 1
  whole : ∀ member ∈ members, member.1.isSome = true ∧ member.2.isWhole = true

theorem AreProperFor.of_cons {names : List String} {member : Option String × Document}
    (proper : AreProperFor names (member :: members)) : AreProperFor names members where
  single := fun name listed =>
    Nat.le_trans (List.count_le_count_cons ..) (proper.single name listed)
  whole := (List.forall_mem_cons.1 proper.whole).2

private theorem AreProperFor.not_mem_of_cons {names : List String} {name : String}
    {document : Document}
    (proper : AreProperFor names ((some name, document) :: members)) (listed : name ∈ names) :
    some name ∉ members.map Prod.fst := by
  have single := proper.single name listed
  rw [List.map_cons, List.count_cons_self] at single
  exact List.count_eq_zero.1 (by omega)

/-- Members from which a record can be read whatever its fields are. -/
structure AreProper (members : List (Option String × Document)) : Prop where
  distinct : (members.map Prod.fst).Nodup
  whole : ∀ member ∈ members, member.1.isSome = true ∧ member.2.isWhole = true

theorem AreProper.single (proper : AreProper members) (name : String) :
    (members.map Prod.fst).count (some name) ≤ 1 :=
  List.nodup_iff_count_le_one.1 proper.distinct (some name)

theorem AreProper.properFor (proper : AreProper members) (names : List String) :
    AreProperFor names members :=
  ⟨fun name _ => proper.single name, proper.whole⟩

theorem areProper_of_isReadable {depth : Nat}
    (readable : (Document.object members).isReadable depth = true)
    (distinct : (members.map Prod.fst).Nodup) : AreProper members := by
  cases depth with
  | zero => cases readable
  | succ depth =>
      refine ⟨distinct, fun member listed => ?_⟩
      obtain ⟨isKey, readable⟩ := Document.membersAreReadable_iff.1 readable member listed
      exact ⟨isKey, Document.isWhole_of_isReadable readable⟩

/-- A record can be filled if each field takes its member. -/
theorem exists_fillMembers (slots : HaveSlots fields)
    (proper : AreProperFor (fields.map Field.name) members)
    (takes : ∀ field ∈ fields, field.Takes members)
    (empty : ∀ field ∈ fields, some field.name ∈ members.map Prod.fst →
      field.isFilled before = false) :
    ∃ after, fillMembers fields members before = .ok after := by
  induction members generalizing before with
  | nil => exact ⟨before, rfl⟩
  | cons member members induction =>
      obtain ⟨key, document⟩ := member
      obtain ⟨isKey, whole⟩ := proper.whole _ List.mem_cons_self
      obtain ⟨name, rfl⟩ := Option.isSome_iff_exists.1 isKey
      have later : ∀ field ∈ fields, field.Takes members := fun field listed own member =>
        takes field listed own (List.mem_cons_of_mem _ member)
      cases found : fieldNamed? fields name with
      | none =>
          obtain ⟨after, rest⟩ := induction proper.of_cons later fun field listed member =>
            empty field listed (List.mem_cons_of_mem _ member)
          exact ⟨after, fillMembers_cons.2 ⟨name, rfl, .inr ⟨found, whole, rest⟩⟩⟩
      | some field =>
          obtain ⟨listed, rfl⟩ := of_fieldNamed? found
          obtain ⟨next, fill⟩ := takes field listed document List.mem_cons_self before
          have stillEmpty : ∀ other ∈ fields, some other.name ∈ members.map Prod.fst →
              other.isFilled next = false := by
            intro other otherListed member
            have different : field.name ≠ other.name := by
              intro same
              rw [← same] at member
              exact proper.not_mem_of_cons (List.mem_map_of_mem listed) member
            rw [slots.isFilled_eq listed otherListed different fill]
            exact empty other otherListed (List.mem_cons_of_mem _ member)
          obtain ⟨after, rest⟩ := induction proper.of_cons later stillEmpty
          exact ⟨after, fillMembers_cons.2 ⟨field.name, rfl, .inl ⟨field, next, found,
            empty field listed List.mem_cons_self, fill, rest⟩⟩⟩

end Records

theorem tagOf_eq_ok {known : List String} {document : Document} {tag : String} :
    tagOf known document = .ok tag ↔ document = .text (some tag) ∧ tag ∈ known := by
  unfold tagOf
  split
  · rename_i own
    by_cases listed : own ∈ known <;> simp [listed]
    · rintro rfl
      exact listed
    · rintro rfl
      exact listed
  · simp_all

/-- The members of an object behind its tag. -/
def untagged (members : List (Option String × Document)) : List (Option String × Document) :=
  members.filter (·.1 != some "type")

theorem AreProper.untagged {members : List (Option String × Document)}
    (proper : AreProper members) : AreProper (untagged members) :=
  ⟨proper.distinct.sublist (List.filter_sublist.map _),
    fun member listed => proper.whole member (List.mem_of_mem_filter listed)⟩

private theorem untagged_of_not_mem {members : List (Option String × Document)}
    (single : some "type" ∉ members.map Prod.fst) : untagged members = members := by
  refine List.filter_eq_self.2 fun member listed => bne_iff_ne.2 ?_
  intro same
  exact single (same ▸ List.mem_map_of_mem listed)

theorem untagged_cons {members : List (Option String × Document)}
    (single : some "type" ∉ members.map Prod.fst) (document : Document) :
    untagged ((some "type", document) :: members) = members := by
  rw [untagged, List.filter_cons_of_neg (by simp), ← untagged, untagged_of_not_mem single]

theorem mem_untagged {members : List (Option String × Document)} {name : String}
    (different : name ≠ "type") {document : Document} :
    (some name, document) ∈ untagged members ↔ (some name, document) ∈ members := by
  simp [untagged, different]

section Tags

variable {known : List String} {members : List (Option String × Document)}

theorem splitTag_of_untagged (proper : ∀ member ∈ members, member.1.isSome = true ∧
      member.2.isReadable (nestingLimit - 1) = true)
    (single : some "type" ∉ members.map Prod.fst) (tag : Option String)
    (others : List (Option String × Document)) :
    splitTag known members tag others = .ok (tag, others.reverse ++ members) := by
  induction members generalizing others with
  | nil => simp [splitTag]
  | cons member members induction =>
      obtain ⟨key, document⟩ := member
      obtain ⟨⟨isKey, readable⟩, rest⟩ := List.forall_mem_cons.1 proper
      obtain ⟨name, rfl⟩ := Option.isSome_iff_exists.1 isKey
      rw [List.map_cons, List.mem_cons, not_or] at single
      have different : name ≠ "type" := by
        rintro rfl
        exact single.1 rfl
      have later := induction rest single.2 ((some name, document) :: others)
      simp [splitTag, different, readable, later]

theorem splitTag_eq_ok (proper : ∀ member ∈ members, member.1.isSome = true ∧
      member.2.isReadable (nestingLimit - 1) = true)
    (single : (members.map Prod.fst).count (some "type") ≤ 1) {tag : String}
    {others rest : List (Option String × Document)} :
    splitTag known members none others = .ok (some tag, rest) ↔
      (some "type", .text (some tag)) ∈ members ∧ tag ∈ known ∧
        rest = others.reverse ++ untagged members := by
  induction members generalizing others with
  | nil => simp [splitTag]
  | cons member members induction =>
      obtain ⟨key, document⟩ := member
      obtain ⟨⟨isKey, readable⟩, later⟩ := List.forall_mem_cons.1 proper
      obtain ⟨name, rfl⟩ := Option.isSome_iff_exists.1 isKey
      rw [List.map_cons] at single
      by_cases isTag : name = "type"
      · subst isTag
        replace single : some "type" ∉ members.map Prod.fst := by
          rw [List.count_cons_self] at single
          exact List.count_eq_zero.1 (by omega)
        have here : (some "type", .text (some tag)) ∈ (some "type", document) :: members ↔
            document = .text (some tag) := by
          constructor
          · intro member
            rcases List.mem_cons.1 member with same | elsewhere
            · exact (Prod.mk.inj same).2.symm
            · exact (single (List.mem_map.2 ⟨_, elsewhere, rfl⟩)).elim
          · rintro rfl
            exact List.mem_cons_self
        rw [here, untagged_cons single, splitTag, if_pos (by simp)]
        constructor
        · intro decoded
          obtain ⟨own, isTag, split⟩ := bind_eq_ok.1 decoded
          rw [splitTag_of_untagged later single] at split
          obtain ⟨same, rfl⟩ := Prod.mk.inj (Except.ok.inj split)
          obtain rfl := Option.some.inj same
          obtain ⟨isText, listed⟩ := tagOf_eq_ok.1 isTag
          exact ⟨isText, listed, rfl⟩
        · rintro ⟨isText, listed, rfl⟩
          exact bind_eq_ok.2 ⟨tag, tagOf_eq_ok.2 ⟨isText, listed⟩,
            splitTag_of_untagged later single _ _⟩
      · have behind : untagged ((some name, document) :: members) =
            (some name, document) :: untagged members :=
          List.filter_cons_of_pos (by simp [isTag])
        rw [List.count_cons_of_ne (by simp [isTag])] at single
        rw [splitTag, if_neg (by simp [isTag]), if_pos readable, induction later single, behind,
          List.reverse_cons, List.append_assoc, List.singleton_append, List.mem_cons]
        simp [Ne.symm isTag]

/-- A tag that stands twice is refused. -/
theorem single_of_splitTag {tag : Option String}
    {others : List (Option String × Document)}
    {result : Option String × List (Option String × Document)}
    (split : splitTag known members tag others = .ok result) :
    (members.map Prod.fst).count (some "type") + tag.toList.length ≤ 1 := by
  induction members generalizing tag others with
  | nil => cases tag <;> simp
  | cons member members induction =>
      obtain ⟨key, document⟩ := member
      cases key with
      | none => cases split
      | some name =>
          unfold splitTag at split
          by_cases isTag : name = "type"
          · subst isTag
            rw [if_pos (by simp)] at split
            cases tag with
            | some own => cases split
            | none =>
                obtain ⟨own, _, split⟩ := bind_eq_ok.1 split
                have rest := induction split
                rw [List.map_cons, List.count_cons_self]
                simp only [Option.toList_some, Option.toList_none, List.length_singleton,
                  List.length_nil] at rest ⊢
                omega
          · rw [if_neg (by simp [isTag])] at split
            rw [List.map_cons, List.count_cons_of_ne (by simp [isTag])]
            split at split
            · exact induction split
            · cases split

theorem tagged_eq_ok {title : String}
    (readable : (Document.object members).isReadable nestingLimit = true)
    (single : (members.map Prod.fst).count (some "type") ≤ 1) {tag : String} {body : Document} :
    tagged title known (.object members) = .ok (tag, body) ↔
      (some "type", .text (some tag)) ∈ members ∧ tag ∈ known ∧
        body = .object (untagged members) := by
  have proper : ∀ member ∈ members, member.1.isSome = true ∧
      member.2.isReadable (nestingLimit - 1) = true :=
    Document.membersAreReadable_iff.1 readable
  rw [tagged, bind_eq_ok]
  constructor
  · rintro ⟨⟨found, others⟩, split, decoded⟩
    obtain ⟨own, isTag, built⟩ := bind_eq_ok.1 decoded
    obtain ⟨rfl, rfl⟩ := Prod.mk.inj (Except.ok.inj built)
    cases found with
    | none => cases isTag
    | some own =>
        obtain rfl := Except.ok.inj isTag
        obtain ⟨member, listed, rfl⟩ := (splitTag_eq_ok proper single).1 split
        exact ⟨member, listed, rfl⟩
  · rintro ⟨member, listed, rfl⟩
    exact ⟨_, (splitTag_eq_ok proper single).2 ⟨member, listed, rfl⟩, rfl⟩

end Tags

end Decode

end ElmAtlas.Json
