import ElmAtlas.Proofs.Json.Decode

/-!
# Records in objects and in arrays

A record is told by an object that names its fields or by an array that lists them.  An
array is read as the object in which its items have the names of the fields, one after
the other.
-/

namespace ElmAtlas.Json.Decode

/-- A document that tells a record with fields of these names, and the members it tells
them by.  An object may have further members. -/
inductive IsRecord (names : List String) :
    Document → List (Option String × Document) → Prop where
  | object {members : List (Option String × Document)}
      (single : ∀ name ∈ names, (members.map Prod.fst).count (some name) ≤ 1) :
      IsRecord names (.object members) members
  | array {items : List Document} (fits : items.length ≤ names.length) :
      IsRecord names (.array items) ((names.map some).zip items)

section Members

variable {names : List String} {document : Document}
  {members : List (Option String × Document)}

theorem keys_zip (names : List String) (items : List Document) :
    ((names.map some).zip items).map Prod.fst = (names.take items.length).map some := by
  induction names generalizing items with
  | nil => simp
  | cons name names induction =>
      cases items with
      | nil => rfl
      | cons item items => simp [induction]

theorem IsRecord.single (isRecord : IsRecord names document members) (distinct : names.Nodup)
    {name : String} (listed : name ∈ names) :
    (members.map Prod.fst).count (some name) ≤ 1 := by
  cases isRecord with
  | object single => exact single name listed
  | array fits =>
      rename_i items
      rw [keys_zip]
      have kept : (names.take items.length).Nodup := distinct.sublist (List.take_sublist ..)
      exact List.nodup_iff_count_le_one.1 (kept.map fun _ _ => Option.some.inj) _

/-- The members of a record are as readable as the record. -/
theorem IsRecord.readable (isRecord : IsRecord names document members) {depth : Nat}
    (readable : document.isReadable depth = true) :
    ∀ member ∈ members, member.1.isSome = true ∧ member.2.isReadable (depth - 1) = true := by
  cases isRecord with
  | object =>
      cases depth with
      | zero => cases readable
      | succ depth => exact Document.membersAreReadable_iff.1 readable
  | array =>
      rintro ⟨key, item⟩ member
      obtain ⟨listed, isItem⟩ := List.of_mem_zip member
      obtain ⟨name, _, rfl⟩ := List.mem_map.1 listed
      exact ⟨rfl, Document.isReadable_of_mem_array readable isItem⟩

theorem IsRecord.whole (isRecord : IsRecord names document members) {depth : Nat}
    (readable : document.isReadable depth = true) :
    ∀ member ∈ members, member.1.isSome = true ∧ member.2.isWhole = true := by
  intro member listed
  obtain ⟨isKey, readable⟩ := isRecord.readable readable member listed
  exact ⟨isKey, Document.isWhole_of_isReadable readable⟩

end Members

section Drafts

variable {draft : Type} {fields : List (Field draft)} {discipline : Discipline}
  {members : List (Option String × Document)} {before after : draft} {document : Document}
  {title : String}

namespace Slot

variable {α : Type} {name : String} {get : draft → Option α} {decode : Decoder α}

/-- A field that holds something takes no further member. -/
private theorem not_mem_of_held (slot : Slot fields name get decode)
    (filled : fillMembers fields members before = .ok after) {value : α}
    (held : get before = some value) : some name ∉ members.map Prod.fst := by
  induction members generalizing before with
  | nil => exact List.not_mem_nil
  | cons member members induction =>
      obtain ⟨key, document⟩ := member
      rw [List.map_cons, List.mem_cons, not_or]
      obtain ⟨other, rfl, ⟨field, next, found, empty, fill, rest⟩ | ⟨unknown, _, rest⟩⟩ :=
        fillMembers_cons.1 filled
      · obtain ⟨listed, rfl⟩ := of_fieldNamed? found
        have different : field.name ≠ name := by
          intro same
          rw [slot.filled field listed same, held] at empty
          cases empty
        refine ⟨fun same => different (Option.some.inj same).symm, induction rest ?_⟩
        exact (slot.spares field listed different _ _ _ fill).trans held
      · refine ⟨fun same => ?_, induction rest held⟩
        exact slot.fieldNamed?_ne_none (Option.some.inj same ▸ unknown)

/-- The member of a field stands at most once. -/
theorem single (slot : Slot fields name get decode)
    (filled : fillMembers fields members before = .ok after) :
    (members.map Prod.fst).count (some name) ≤ 1 := by
  induction members generalizing before with
  | nil => exact Nat.zero_le 1
  | cons member members induction =>
      obtain ⟨key, document⟩ := member
      obtain ⟨other, rfl, ⟨field, next, found, empty, fill, rest⟩ | ⟨unknown, _, rest⟩⟩ :=
        fillMembers_cons.1 filled
      · obtain ⟨listed, rfl⟩ := of_fieldNamed? found
        by_cases named : field.name = name
        · obtain ⟨value, _, held⟩ := slot.fills field listed named _ _ _ fill
          have others := List.count_eq_zero.2 (slot.not_mem_of_held rest held)
          rw [List.map_cons, named, List.count_cons_self]
          omega
        · rw [List.map_cons, List.count_cons_of_ne (by simpa using named)]
          exact induction rest
      · have different : other ≠ name := fun same => slot.fieldNamed?_ne_none (same ▸ unknown)
        rw [List.map_cons, List.count_cons_of_ne (by simpa using different)]
        exact induction rest

end Slot

theorem fieldNamed?_eq_some (distinct : (fields.map Field.name).Nodup) {field : Field draft}
    (listed : field ∈ fields) : fieldNamed? fields field.name = some field := by
  cases found : fieldNamed? fields field.name with
  | none => exact (List.find?_eq_none.1 found field listed (beq_self_eq_true _)).elim
  | some other =>
      obtain ⟨otherListed, named⟩ := of_fieldNamed? found
      exact congrArg some (List.inj_on_of_nodup_map distinct otherListed listed named)

/-- Reading items for the last fields of a record. -/
theorem fillItems_eq_ok (slots : HaveSlots fields) (distinct : (fields.map Field.name).Nodup)
    {last : List (Field draft)} (isLast : last <:+ fields) {expected : String} {position : Nat}
    {items : List Document} (empty : ∀ field ∈ last, field.isFilled before = false) :
    fillItems discipline expected position last items before = .ok after ↔
      items.length ≤ last.length ∧
        (∀ field ∈ last.drop items.length, field.isOptional = true) ∧
        fillMembers fields (((last.map Field.name).map some).zip items) before = .ok after := by
  induction last generalizing position items before with
  | nil =>
      cases items with
      | nil => simp [fillItems, fillMembers]
      | cons item items => cases discipline <;> simp [fillItems]
  | cons field last induction =>
      have listed : field ∈ fields := isLast.subset List.mem_cons_self
      have later : last <:+ fields := (List.suffix_cons field last).trans isLast
      obtain ⟨isEmpty, othersEmpty⟩ := List.forall_mem_cons.1 empty
      cases items with
      | nil =>
          have rest : fillItems discipline expected (position + 1) last [] before = .ok after ↔ _ :=
            induction later othersEmpty
          by_cases optional : field.isOptional = true
          · simpa [fillItems, optional] using rest
          · simp [fillItems, optional]
      | cons item items =>
          -- Filling this field leaves the fields behind it empty.
          have stillEmpty {next : draft} (fill : field.fill item before = .ok next) :
              ∀ other ∈ last, other.isFilled next = false := by
            intro other otherLast
            have names : (field.name :: last.map Field.name).Nodup :=
              distinct.sublist (isLast.sublist.map Field.name)
            have different : field.name ≠ other.name := by
              intro same
              exact (List.nodup_cons.1 names).1 (same ▸ List.mem_map_of_mem otherLast)
            rw [slots.isFilled_eq listed (later.subset otherLast) different fill]
            exact othersEmpty other otherLast
          have known := fieldNamed?_eq_some distinct listed
          rw [fillItems, bind_eq_ok, List.map_cons, List.map_cons, List.zip_cons_cons,
            fillMembers_cons, List.length_cons, List.length_cons, List.drop_succ_cons]
          constructor
          · rintro ⟨next, fill, rest⟩
            obtain ⟨fits, optional, filled⟩ := (induction later (stillEmpty fill)).1 rest
            exact ⟨Nat.succ_le_succ fits, optional, field.name, rfl,
              .inl ⟨field, next, known, isEmpty, fill, filled⟩⟩
          · rintro ⟨fits, optional, _, same, step⟩
            obtain rfl := Option.some.inj same
            obtain ⟨own, next, found, _, fill, filled⟩ | ⟨unknown, _⟩ := step
            · rw [known] at found
              obtain rfl := Option.some.inj found
              exact ⟨next, fill, (induction later (stillEmpty fill)).2
                ⟨Nat.le_of_succ_le_succ fits, optional, filled⟩⟩
            · rw [known] at unknown
              cases unknown

/-- The fields of a record whose draft is blank. -/
structure AreFieldsOf (blank : draft) (fields : List (Field draft)) : Prop where
  slots : HaveSlots fields
  distinct : (fields.map Field.name).Nodup
  empty : ∀ field ∈ fields, field.isFilled blank = false

variable {blank : draft}

theorem of_draft (areFields : AreFieldsOf blank fields)
    (decoded : Decode.draft discipline title fields blank document = .ok after) :
    ∃ members, IsRecord (fields.map Field.name) document members ∧
      fillMembers fields members blank = .ok after := by
  cases document with
  | object members =>
      refine ⟨members, .object fun name isName => ?_, decoded⟩
      obtain ⟨field, listed, rfl⟩ := List.mem_map.1 isName
      obtain ⟨_, _, _, slot⟩ := areFields.slots field listed
      exact slot.single decoded
  | array items =>
      obtain ⟨fits, _, filled⟩ := (fillItems_eq_ok areFields.slots areFields.distinct
        (List.suffix_refl fields) areFields.empty).1 decoded
      exact ⟨_, .array (by rwa [List.length_map]), filled⟩
  | _ => cases decoded

/-- A field finds what it needs: it takes every member of its name, and there is one unless
the field may be left out. -/
structure Field.IsServedBy (field : Field draft) (members : List (Option String × Document)) :
    Prop where
  takes : field.Takes members
  given : field.isOptional = true ∨ some field.name ∈ members.map Prod.fst

theorem exists_draft (areFields : AreFieldsOf blank fields)
    (isRecord : IsRecord (fields.map Field.name) document members)
    (whole : ∀ member ∈ members, member.1.isSome = true ∧ member.2.isWhole = true)
    (served : ∀ field ∈ fields, field.IsServedBy members) :
    ∃ after, Decode.draft discipline title fields blank document = .ok after ∧
      fillMembers fields members blank = .ok after := by
  obtain ⟨after, filled⟩ := exists_fillMembers areFields.slots
    ⟨fun _ listed => isRecord.single areFields.distinct listed, whole⟩
    (fun field listed => (served field listed).takes)
    (fun field listed _ => areFields.empty field listed)
  refine ⟨after, ?_, filled⟩
  cases isRecord with
  | object single => exact filled
  | array fits =>
      rename_i items
      rw [List.length_map] at fits
      refine (fillItems_eq_ok areFields.slots areFields.distinct (List.suffix_refl fields)
        areFields.empty).2 ⟨fits, fun field beyond => ?_, filled⟩
      refine (served field (List.mem_of_mem_drop beyond)).given.resolve_right fun member => ?_
      rw [keys_zip] at member
      obtain ⟨_, inside, same⟩ := List.mem_map.1 member
      obtain rfl := Option.some.inj same
      have behind : field.name ∈ (fields.map Field.name).drop items.length := by
        rw [← List.map_drop]
        exact List.mem_map_of_mem beyond
      exact List.disjoint_take_drop areFields.distinct (Nat.le_refl _) inside behind

end Drafts

section Tags

variable {names known : List String} {document : Document} {title tag : String}
  {members others : List (Option String × Document)}

theorem count_untagged {name : String} (different : name ≠ "type") :
    ((untagged members).map Prod.fst).count (some name) =
      (members.map Prod.fst).count (some name) := by
  rw [List.count_eq_countP, List.count_eq_countP, List.countP_map, List.countP_map, untagged,
    List.countP_filter]
  refine List.countP_congr fun member _ => ?_
  simp only [Function.comp_apply, Bool.and_eq_true, beq_iff_eq, bne_iff_ne, and_iff_left_iff_imp]
  rintro same tagged
  rw [same] at tagged
  exact different (Option.some.inj tagged)

/-- Everything behind a tag has to be readable. -/
private theorem readable_of_splitTag {before : Option String}
    {result : Option String × List (Option String × Document)}
    (split : splitTag known members before others = .ok result) :
    Document.membersAreReadable (nestingLimit - 1) members = true := by
  induction members generalizing before others with
  | nil => rfl
  | cons member members induction =>
      obtain ⟨key, value⟩ := member
      rw [Document.membersAreReadable, Bool.and_eq_true, Bool.and_eq_true]
      cases key with
      | none => cases split
      | some name =>
          unfold splitTag at split
          split at split
          · cases before with
            | some own => cases split
            | none =>
                obtain ⟨own, isTag, later⟩ := bind_eq_ok.1 split
                obtain ⟨rfl, _⟩ := tagOf_eq_ok.1 isTag
                exact ⟨⟨rfl, rfl⟩, induction later⟩
          · split at split
            · rename_i readable
              exact ⟨⟨rfl, readable⟩, induction split⟩
            · cases split

theorem readable_of_tagged {body : Document}
    (split : tagged title known document = .ok (tag, body)) :
    document.isReadable nestingLimit = true := by
  cases document with
  | object members =>
      obtain ⟨_, split, _⟩ := bind_eq_ok.1 split
      exact readable_of_splitTag split
  | array items =>
      cases items with
      | nil => cases split
      | cons first rest =>
          obtain ⟨own, isTag, built⟩ := bind_eq_ok.1 split
          obtain ⟨rfl, _⟩ := tagOf_eq_ok.1 isTag
          split at built
          · rename_i readable
            exact readable
          · cases built
  | _ => cases split

theorem tagged_array_eq_ok {first : Document} {rest : List Document}
    (readable : (Document.array (first :: rest)).isReadable nestingLimit = true)
    {body : Document} :
    tagged title known (.array (first :: rest)) = .ok (tag, body) ↔
      first = .text (some tag) ∧ tag ∈ known ∧ body = .array rest := by
  have restReadable : Document.areReadable (nestingLimit - 1) rest = true :=
    (Bool.and_eq_true_iff.1 readable).2
  rw [tagged, bind_eq_ok]
  simp only [restReadable, if_true, tagOf_eq_ok]
  constructor
  · rintro ⟨own, ⟨rfl, listed⟩, built⟩
    obtain ⟨rfl, rfl⟩ := Prod.mk.inj (Except.ok.inj built)
    exact ⟨rfl, listed, rfl⟩
  · rintro ⟨rfl, listed, rfl⟩
    exact ⟨tag, ⟨rfl, listed⟩, rfl⟩

/-- The record behind a tag is the tagged record without its tag. -/
theorem tagged_isRecord_iff (noTag : "type" ∉ names)
    (readable : document.isReadable nestingLimit = true) :
    (∃ body, tagged title known document = .ok (tag, body) ∧ IsRecord names body others) ↔
      ∃ members, IsRecord ("type" :: names) document members ∧
        (some "type", .text (some tag)) ∈ members ∧ tag ∈ known ∧
        others = untagged members := by
  have different {name : String} (listed : name ∈ names) : name ≠ "type" :=
    fun same => noTag (same ▸ listed)
  cases document with
  | object members =>
      constructor
      · rintro ⟨body, split, isRecord⟩
        have single : (members.map Prod.fst).count (some "type") ≤ 1 := by
          obtain ⟨_, split, _⟩ := bind_eq_ok.1 split
          exact single_of_splitTag split
        obtain ⟨member, listed, rfl⟩ := (tagged_eq_ok readable single).1 split
        cases isRecord with
        | object others =>
            refine ⟨members, .object (List.forall_mem_cons.2 ⟨single, fun name listed => ?_⟩),
              member, listed, rfl⟩
            rw [← count_untagged (different listed)]
            exact others name listed
      · rintro ⟨_, isRecord, member, listed, rfl⟩
        cases isRecord with
        | object single =>
            obtain ⟨single, others⟩ := List.forall_mem_cons.1 single
            refine ⟨_, (tagged_eq_ok readable single).2 ⟨member, listed, rfl⟩,
              .object fun name listed => ?_⟩
            rw [count_untagged (different listed)]
            exact others name listed
  | array items =>
      cases items with
      | nil =>
          constructor
          · rintro ⟨_, split, _⟩
            cases split
          · rintro ⟨_, isRecord, member, _⟩
            cases isRecord
            cases member
      | cons first rest =>
          have keys : some "type" ∉ ((names.map some).zip rest).map Prod.fst := by
            rw [keys_zip]
            intro member
            obtain ⟨_, listed, same⟩ := List.mem_map.1 member
            exact different (List.mem_of_mem_take listed) (Option.some.inj same)
          have split {body : Document} :
              tagged title known (.array (first :: rest)) = .ok (tag, body) ↔
                first = .text (some tag) ∧ tag ∈ known ∧ body = .array rest :=
            tagged_array_eq_ok readable
          constructor
          · rintro ⟨_, decoded, isRecord⟩
            obtain ⟨rfl, listed, rfl⟩ := split.1 decoded
            cases isRecord with
            | array fits =>
                refine ⟨_, .array (Nat.succ_le_succ fits), List.mem_cons_self, listed, ?_⟩
                exact (untagged_cons keys _).symm
          · rintro ⟨_, isRecord, member, listed, rfl⟩
            cases isRecord with
            | array fits =>
                rw [List.map_cons, List.zip_cons_cons] at member ⊢
                rw [untagged_cons keys]
                have isTag : first = .text (some tag) := by
                  rcases List.mem_cons.1 member with same | later
                  · exact (Prod.mk.inj same).2.symm
                  · exact (keys (List.mem_map_of_mem later)).elim
                exact ⟨_, split.2 ⟨isTag, listed, rfl⟩, .array (Nat.le_of_succ_le_succ fits)⟩
  | _ =>
      constructor
      · rintro ⟨_, split, _⟩
        cases split
      · rintro ⟨_, isRecord, _⟩
        cases isRecord

end Tags

end ElmAtlas.Json.Decode
