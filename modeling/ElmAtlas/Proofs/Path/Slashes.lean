import ElmAtlas.Proofs.Path.Composition

/-!
# Slashes and backslashes

A backslash is part of a name, but a path is also told with `/` for every `\`.  A path
without backslashes is told as it is, and normalising brings no backslash in.
-/

namespace ElmAtlas.Path

theorem slashText_eq_text {path : Path} (free : '\\' ∉ path.text.toList) :
    path.slashText = path.text := by
  have unchanged : path.text.toList.map (fun character =>
      if character == '\\' then '/' else character) = path.text.toList := by
    refine (List.map_congr_left fun character member => ?_).trans (List.map_id _)
    rw [if_neg]
    · rfl
    · rw [beq_iff_eq]
      rintro rfl
      exact free member
  rw [slashText, unchanged, String.ofList_toList]

theorem backslash_not_mem_slashText (path : Path) : '\\' ∉ path.slashText.toList := by
  rw [slashText, String.toList_ofList]
  intro member
  obtain ⟨character, _, written⟩ := List.mem_map.1 member
  split at written
  · exact absurd written (by decide)
  · rename_i other
    exact other (beq_iff_eq.2 written)

theorem isAbsolute_slashText {path : Path} (absolute : path.isAbsolute = true) :
    (Path.mk path.slashText).isAbsolute = true := by
  obtain ⟨rest, text⟩ := List.head?_eq_some_iff.1 (beq_iff_eq.1 absolute)
  simp [isAbsolute, slashText, text]

private theorem of_mem_ofComponents {components : List Component} {character : Char}
    (inside : character ∈ (ofComponents components).text.toList) :
    character = '/' ∨ ∃ component ∈ components, character ∈ component.text.toList := by
  have written (steps : List Component)
      (inside : character ∈ (String.intercalate "/" (steps.map Component.text)).toList) :
      character = '/' ∨ ∃ component ∈ steps, character ∈ component.text.toList := by
    rw [String.toList_intercalate] at inside
    rcases Text.of_mem_intercalate inside with separator | ⟨piece, listed, member⟩
    · exact .inl (List.mem_singleton.1 separator)
    · simp only [List.mem_map, exists_exists_and_eq_and] at listed
      obtain ⟨component, componentListed, rfl⟩ := listed
      exact .inr ⟨component, componentListed, member⟩
  unfold ofComponents at inside
  split at inside
  · rename_i rest
    rw [String.toList_append] at inside
    rcases List.mem_append.1 inside with root | behind
    · exact .inl (List.mem_singleton.1 root)
    · rcases written rest behind with slash | ⟨component, listed, member⟩
      · exact .inl slash
      · exact .inr ⟨component, List.mem_cons_of_mem _ listed, member⟩
  · exact written components inside

/-- The names of a normal form are names of the path. -/
private theorem mem_pieces_of_mem_normalizeComponents {path : Path} {name : String}
    (member : .name name ∈ normalizeComponents path.components) :
    .name name ∈ path.pieces.filterMap Component.ofPiece? := by
  rw [normalizeComponents_components, normalizeComponents, List.mem_reverse] at member
  rcases mem_of_mem_foldl_normalizeStep member with listed | none
  · rcases List.mem_append.1 listed with root | behind
    · split at root
      · cases List.mem_singleton.1 root
      · cases root
    · exact behind
  · cases none

/-- Normalising brings no characters in but those of `/`, `.` and `..`. -/
private theorem mem_text_of_mem_normalize {path : Path} {character : Char}
    (inside : character ∈ path.normalize.text.toList) (noSlash : character ≠ '/')
    (noDot : character ≠ '.') : character ∈ path.text.toList := by
  rw [normalize] at inside
  split at inside
  · exact (noDot (List.mem_singleton.1 inside)).elim
  · rcases of_mem_ofComponents inside with slash | ⟨component, listed, member⟩
    · exact (noSlash slash).elim
    · cases component with
      | root => exact (noSlash (List.mem_singleton.1 member)).elim
      | current => exact (noDot (List.mem_singleton.1 member)).elim
      | parent => exact (noDot (by simpa [Component.text] using member)).elim
      | name name =>
          exact mem_text_of_name (mem_pieces_of_mem_normalizeComponents listed) member

theorem backslash_not_mem_normalize {path : Path} (free : '\\' ∉ path.text.toList) :
    '\\' ∉ path.normalize.text.toList := by
  intro member
  exact free (mem_text_of_mem_normalize member (by decide) (by decide))

end ElmAtlas.Path
