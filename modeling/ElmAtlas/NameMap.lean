/-!
# Maps from names to values

A `NameMap` lists its entries in strictly ascending order of their names, so it
holds each name at most once and two maps with the same entries are equal.
-/

namespace ElmAtlas

/-- Puts an entry in its place; an entry of the same name is replaced. -/
def insertEntry {α : Type} (name : String) (value : α) :
    List (String × α) → List (String × α)
  | [] => [(name, value)]
  | (head, old) :: rest =>
      if name < head then (name, value) :: (head, old) :: rest
      else if head < name then (head, old) :: insertEntry name value rest
      else (name, value) :: rest

theorem fst_mem_insertEntry {α : Type} {name : String} {value : α}
    {entries : List (String × α)} {entry : String × α}
    (member : entry ∈ insertEntry name value entries) :
    entry.1 = name ∨ entry ∈ entries := by
  induction entries with
  | nil => simp_all [insertEntry]
  | cons head rest induction =>
      simp only [insertEntry] at member
      split at member
      · simp_all
        grind
      · split at member
        · simp_all
          grind
        · simp_all
          grind

theorem insertEntry_pairwise {α : Type} (name : String) (value : α)
    {entries : List (String × α)}
    (ascending : entries.Pairwise (fun left right => left.1 < right.1)) :
    (insertEntry name value entries).Pairwise (fun left right => left.1 < right.1) := by
  induction entries with
  | nil => simp [insertEntry]
  | cons head rest induction =>
      obtain ⟨headBelow, restAscending⟩ := List.pairwise_cons.1 ascending
      simp only [insertEntry]
      split
      · rename_i nameBelow
        refine List.pairwise_cons.2 ⟨?_, ascending⟩
        intro entry member
        rcases List.mem_cons.1 member with rfl | member
        · exact nameBelow
        · exact String.lt_trans nameBelow (headBelow entry member)
      · split
        · rename_i headBelowName
          refine List.pairwise_cons.2 ⟨?_, induction restAscending⟩
          intro entry member
          rcases fst_mem_insertEntry member with same | member
          · simpa [same] using headBelowName
          · exact headBelow entry member
        · rename_i notBelow notAbove
          have same : name = head.1 := String.le_antisymm
            (String.not_lt.1 notAbove) (String.not_lt.1 notBelow)
          refine List.pairwise_cons.2 ⟨?_, restAscending⟩
          intro entry member
          simpa [same] using headBelow entry member

structure NameMap (α : Type) where
  entries : List (String × α)
  ascending : entries.Pairwise (fun left right => left.1 < right.1)

namespace NameMap

variable {α β : Type}

def empty : NameMap α :=
  ⟨[], List.Pairwise.nil⟩

instance : Inhabited (NameMap α) := ⟨empty⟩

def insert (map : NameMap α) (name : String) (value : α) : NameMap α :=
  ⟨insertEntry name value map.entries, insertEntry_pairwise name value map.ascending⟩

/-- Of several entries of one name the last one counts. -/
def ofList (entries : List (String × α)) : NameMap α :=
  entries.foldl (fun map (name, value) => map.insert name value) empty

def get? (map : NameMap α) (name : String) : Option α :=
  map.entries.lookup name

def contains (map : NameMap α) (name : String) : Bool :=
  (map.get? name).isSome

def names (map : NameMap α) : List String :=
  map.entries.map Prod.fst

def filterNames (map : NameMap α) (keeps : String → Bool) : NameMap α :=
  ⟨map.entries.filter (fun entry => keeps entry.1), map.ascending.filter _⟩

end NameMap

end ElmAtlas
