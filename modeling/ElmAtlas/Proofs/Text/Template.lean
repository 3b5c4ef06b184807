import ElmAtlas.Text.Template
import Mathlib.Data.List.Basic

/-!
# Texts that fit a template

Whether a text fits a template does not depend on the order in which the parts try
what they can take.  The search finds what it captures exactly in the texts that fit.
-/

namespace ElmAtlas.Text

namespace TemplatePart

/-- What a part may take from a text. -/
def Takes : TemplatePart → List Char → Prop
  | run accepts least, taken =>
      least ≤ taken.length ∧ ∀ character ∈ taken, accepts character = true
  | choice texts, taken => taken ∈ texts

private theorem mem_runs_cons {accepts : Char → Bool} {character : Char}
    {rest taken left : List Char} :
    (taken, left) ∈ runs accepts (character :: rest) ↔
      (∃ more, accepts character = true ∧ (more, left) ∈ runs accepts rest ∧
        character :: more = taken) ∨
      taken = [] ∧ left = character :: rest := by
  by_cases accepted : accepts character = true
  · simp [runs, accepted]
  · simp [runs, accepted]

private theorem mem_runs {accepts : Char → Bool} {characters taken left : List Char} :
    (taken, left) ∈ runs accepts characters ↔
      characters = taken ++ left ∧ ∀ character ∈ taken, accepts character = true := by
  induction characters generalizing taken with
  | nil =>
      rw [runs, List.mem_singleton, Prod.mk.injEq, List.nil_eq, List.append_eq_nil_iff]
      constructor
      · rintro ⟨rfl, rfl⟩
        exact ⟨⟨rfl, rfl⟩, fun _ member => (List.not_mem_nil member).elim⟩
      · exact And.left
  | cons character rest induction =>
      rw [mem_runs_cons]
      constructor
      · rintro (⟨more, accepted, longer, rfl⟩ | ⟨rfl, rfl⟩)
        · obtain ⟨rfl, others⟩ := induction.1 longer
          exact ⟨rfl, List.forall_mem_cons.2 ⟨accepted, others⟩⟩
        · exact ⟨rfl, fun _ member => (List.not_mem_nil member).elim⟩
      · rintro ⟨whole, accepted⟩
        cases taken with
        | nil => exact .inr ⟨rfl, whole.symm⟩
        | cons first more =>
            obtain ⟨rfl, behind⟩ := List.cons.inj whole
            obtain ⟨firstAccepted, others⟩ := List.forall_mem_cons.1 accepted
            exact .inl ⟨more, firstAccepted, induction.2 ⟨behind, others⟩, rfl⟩

theorem mem_ways {part : TemplatePart} {characters taken left : List Char} :
    (taken, left) ∈ part.ways characters ↔ characters = taken ++ left ∧ part.Takes taken := by
  cases part with
  | run accepts least =>
      rw [ways, List.mem_filter, mem_runs, decide_eq_true_eq, Takes, and_assoc,
        and_comm (a := least ≤ taken.length)]
  | choice texts =>
      simp only [ways, List.mem_filterMap, Option.map_eq_some_iff, Prod.mk.injEq,
        List.isPrefixOf?_eq_some_iff_append_eq, Takes]
      constructor
      · rintro ⟨text, listed, rest, whole, rfl, rfl⟩
        exact ⟨whole.symm, listed⟩
      · rintro ⟨whole, listed⟩
        exact ⟨taken, listed, left, whole.symm, rfl, rfl⟩

end TemplatePart

namespace Template

/-- A text that fits a template, with what the captured parts take from it. -/
inductive Fits : Template → List Char → List (List Char) → Prop where
  | nil : Fits [] [] []
  | cons {step : TemplateStep} {steps : Template} {taken left : List Char}
      {captures : List (List Char)} (takes : step.part.Takes taken)
      (others : Fits steps left captures) :
      Fits (step :: steps) (taken ++ left)
        (if step.captured then taken :: captures else captures)

variable {template : Template} {characters : List Char} {captures : List (List Char)}

theorem fits_nil : Fits [] characters captures ↔ characters = [] ∧ captures = [] := by
  constructor
  · rintro ⟨⟩
    exact ⟨rfl, rfl⟩
  · rintro ⟨rfl, rfl⟩
    exact .nil

theorem fits_pass {part : TemplatePart} :
    Fits (pass part :: template) characters captures ↔
      ∃ taken left, taken ++ left = characters ∧ part.Takes taken ∧
        Fits template left captures := by
  constructor
  · rintro (_ | ⟨takes, others⟩)
    exact ⟨_, _, rfl, takes, others⟩
  · rintro ⟨taken, left, rfl, takes, others⟩
    exact .cons takes others

theorem fits_capture {part : TemplatePart} :
    Fits (capture part :: template) characters captures ↔
      ∃ taken left behind, taken ++ left = characters ∧ taken :: behind = captures ∧
        part.Takes taken ∧ Fits template left behind := by
  constructor
  · rintro (_ | ⟨takes, others⟩)
    exact ⟨_, _, _, rfl, rfl, takes, others⟩
  · rintro ⟨taken, left, behind, rfl, rfl, takes, others⟩
    exact .cons takes others

theorem fits_of_captures? (found : captures? template characters = some captures) :
    Fits template characters captures := by
  induction template generalizing characters captures with
  | nil =>
      cases characters with
      | nil =>
          cases found
          exact .nil
      | cons character rest => cases found
  | cons step steps induction =>
      obtain ⟨⟨taken, left⟩, way, others⟩ := List.exists_of_findSome?_eq_some found
      obtain ⟨behind, capturesBehind, rfl⟩ := Option.map_eq_some_iff.1 others
      obtain ⟨rfl, takes⟩ := TemplatePart.mem_ways.1 way
      exact .cons takes (induction capturesBehind)

theorem Fits.isSome_captures? (fits : Fits template characters captures) :
    (captures? template characters).isSome = true := by
  induction fits with
  | nil => rfl
  | @cons step steps taken left captures takes others induction =>
      rw [captures?, List.findSome?_isSome_iff]
      refine ⟨(taken, left), TemplatePart.mem_ways.2 ⟨rfl, takes⟩, ?_⟩
      rw [Option.isSome_map]
      exact induction

end Template

end ElmAtlas.Text
