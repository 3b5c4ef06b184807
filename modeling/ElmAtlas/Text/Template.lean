/-!
# Templates of texts

A template describes a whole text as parts in a row: runs of characters of one
kind and choices between fixed texts.  A run takes as many characters as it can
and a choice prefers its earlier texts; where the parts behind do not fit, a part
takes less, or something else.
-/

namespace ElmAtlas.Text

inductive TemplatePart where
  /-- Characters of one kind, at least so many. -/
  | run (accepts : Char → Bool) (least : Nat)
  | choice (texts : List (List Char))

namespace TemplatePart

/-- The ways to cut a text after characters of one kind, the longest first. -/
def runs (accepts : Char → Bool) : List Char → List (List Char × List Char)
  | [] => [([], [])]
  | character :: rest =>
      let longer :=
        if accepts character then
          (runs accepts rest).map fun (taken, left) => (character :: taken, left)
        else []
      longer ++ [([], character :: rest)]

/-- What a part can take from a text and what it leaves, in the order of preference. -/
def ways : TemplatePart → List Char → List (List Char × List Char)
  | run accepts least, characters =>
      (runs accepts characters).filter fun (taken, _) => least ≤ taken.length
  | choice texts, characters =>
      texts.filterMap fun text => (text.isPrefixOf? characters).map (text, ·)

end TemplatePart

structure TemplateStep where
  part : TemplatePart
  captured : Bool

abbrev Template := List TemplateStep

namespace Template

def capture (part : TemplatePart) : TemplateStep :=
  ⟨part, true⟩

def pass (part : TemplatePart) : TemplateStep :=
  ⟨part, false⟩

/-- What the captured parts of a template take from a text that fits it. -/
def captures? : Template → List Char → Option (List (List Char))
  | [], [] => some []
  | [], _ :: _ => none
  | step :: steps, characters =>
      (step.part.ways characters).findSome? fun (taken, left) =>
        (captures? steps left).map fun captures =>
          if step.captured then taken :: captures else captures

end Template

end ElmAtlas.Text
