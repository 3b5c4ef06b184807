import ElmAtlas.Proofs.Path.Slashes
import ElmAtlas.Proofs.State.Codec

/-!
# States that come from a text

Reading a state normalises each entry, then writes `/` for every `\`, and keeps the last of
equal entries.  The slashes come last, so an entry with backslashes may be listed by a path
that is not in normal form, and it is listed otherwise when the state is written and read
again.  All other entries are listed in their final form at once, and reading twice is
enough for every entry.
-/

namespace ElmAtlas.State

theorem normalizeEntry_eq_normalize {entry : String} (free : '\\' ∉ entry.toList) :
    normalizeEntry entry = (Path.normalize ⟨entry⟩).text :=
  Path.slashText_eq_text (Path.backslash_not_mem_normalize free)

theorem backslash_not_mem_normalizeEntry (entry : String) :
    '\\' ∉ (normalizeEntry entry).toList :=
  Path.backslash_not_mem_slashText _

/-- A listed path stays as it is exactly if it is a normal form. -/
theorem normalizeEntry_listed (entry : String) :
    normalizeEntry (normalizeEntry entry) = normalizeEntry entry ↔
      Path.normalize ⟨normalizeEntry entry⟩ = ⟨normalizeEntry entry⟩ := by
  rw [normalizeEntry_eq_normalize (backslash_not_mem_normalizeEntry entry)]
  cases Path.normalize ⟨normalizeEntry entry⟩
  rw [Path.mk.injEq]

theorem normalizeEntry_idem {entry : String} (free : '\\' ∉ entry.toList) :
    normalizeEntry (normalizeEntry entry) = normalizeEntry entry := by
  rw [normalizeEntry_listed, normalizeEntry_eq_normalize free]
  exact Path.normalize_normalize ⟨entry⟩

/-- Different paths come back as they are only if each of them does. -/
theorem normalizePaths_eq_self_iff {paths : List String} (distinct : paths.Nodup) :
    normalizePaths paths = paths ↔ ∀ path ∈ paths, normalizeEntry path = path := by
  refine ⟨?_, normalizePaths_eq_self distinct⟩
  intro same
  rw [normalizePaths_eq_dedup] at same
  -- No path was dropped, so each stands where its own normal form stands.
  have kept : (paths.map normalizeEntry).dedup = paths.map normalizeEntry := by
    apply (List.dedup_sublist _).eq_of_length
    rw [same, List.length_map]
  rw [kept] at same
  intro path listed
  exact List.map_inj_left.1 (same.trans (List.map_id paths).symm) path listed

theorem normalizePaths_idem {paths : List String} (free : ∀ path ∈ paths, '\\' ∉ path.toList) :
    normalizePaths (normalizePaths paths) = normalizePaths paths := by
  apply normalizePaths_eq_self
  · rw [normalizePaths_eq_dedup]
    exact List.nodup_dedup _
  · intro path listed
    obtain ⟨entry, entryListed, rfl⟩ := of_mem_normalizePaths listed
    exact normalizeEntry_idem (free entry entryListed)

theorem parse_eq_ok {text : String} {state : State} :
    parse text = .ok state ↔
      ∃ listed, (Toml.read? text).bind ofValue? = some listed ∧
        state = { listed with paths := normalizePaths listed.paths } := by
  rw [parse]
  cases (Toml.read? text).bind ofValue? with
  | none => simp
  | some listed => simp [eq_comm]

theorem parse_render_eq_self_iff (state : State) :
    parse state.render = .ok state ↔ normalizePaths state.paths = state.paths := by
  rw [parse_render, Except.ok.injEq]
  exact ⟨congrArg State.paths, fun same => by rw [same]⟩

/-- A state that was read lists different paths: those of the document's entries, each in the
form of an entry, in the order of their last occurrences.  It comes back from its own text
exactly if every listed path is a normal form, which is so if no entry of the document has a
backslash.  What comes back in any case is a state that comes back from its own text. -/
theorem parsed_comes_back_iff {text : String} {state : State} (parsed : parse text = .ok state) :
    state.paths.Nodup ∧
    ∃ listed, (Toml.read? text).bind ofValue? = some listed ∧
      state.settings = listed.settings ∧
      state.paths = (listed.paths.map normalizeEntry).dedup ∧
      (parse state.render = .ok state ↔
        ∀ path ∈ state.paths, Path.normalize ⟨path⟩ = ⟨path⟩) ∧
      ((∀ entry ∈ listed.paths, '\\' ∉ entry.toList) → parse state.render = .ok state) ∧
      ∃ again, parse state.render = .ok again ∧ parse again.render = .ok again := by
  obtain ⟨listed, read, rfl⟩ := parse_eq_ok.1 parsed
  have distinct : (normalizePaths listed.paths).Nodup := by
    rw [normalizePaths_eq_dedup]
    exact List.nodup_dedup _
  refine ⟨distinct, listed, read, rfl, normalizePaths_eq_dedup _, ?_, ?_, ?_⟩
  · rw [parse_render_eq_self_iff, normalizePaths_eq_self_iff distinct]
    refine forall₂_congr fun path member => ?_
    obtain ⟨entry, _, rfl⟩ := of_mem_normalizePaths member
    exact normalizeEntry_listed entry
  · intro free
    rw [parse_render_eq_self_iff]
    exact normalizePaths_idem free
  · refine ⟨_, parse_render _, ?_⟩
    rw [parse_render_eq_self_iff]
    apply normalizePaths_idem
    intro path member
    obtain ⟨entry, _, rfl⟩ := of_mem_normalizePaths member
    exact backslash_not_mem_normalizeEntry entry

/-- Two entries of one place and one of another between them.  The first one has a backslash in
a name that normalising drops. -/
def repeatedEntries : String :=
  "elmProjects = [['x\\y/../a'], ['b/..'], ['./a/']]\n"

theorem parsed_comes_back_iff_repeatedEntries :
    parse repeatedEntries = .ok ⟨[".", "a"], {}⟩ ∧
      parse (State.mk [".", "a"] {}).render = .ok ⟨[".", "a"], {}⟩ := by
  have parsed : parse repeatedEntries = .ok ⟨[".", "a"], {}⟩ := by decide +kernel
  obtain ⟨_, _, _, _, _, comesBack, _⟩ := parsed_comes_back_iff parsed
  exact ⟨parsed, comesBack.2 (by decide +kernel)⟩

/-- The path of an entry with backslashes is listed with a `..`, which is gone when the text of
the state is read. -/
theorem backslash_listed_unnormalized :
    parse "[[elmProjects]]\npath = 'a\\..\\b'\n" = .ok ⟨["a/../b"], {}⟩ ∧
      parse (State.mk ["a/../b"] {}).render = .ok ⟨["b"], {}⟩ := by
  refine ⟨by decide +kernel, ?_⟩
  rw [parse_render]
  decide +kernel

end ElmAtlas.State
