/-!
# Failures with their causes

A failure is told from the outside in: what could not be done, then why, down to
the first cause.
-/

namespace ElmAtlas

structure Failure where
  message : String
  causes : List String
  deriving DecidableEq, Repr

namespace Failure

def ofText (message : String) : Failure :=
  ⟨message, []⟩

/-- Says what was being done when a failure happened. -/
def within (failure : Failure) (context : String) : Failure :=
  ⟨context, failure.message :: failure.causes⟩

/-- The whole chain on one line. -/
def joined (failure : Failure) : String :=
  String.intercalate ": " (failure.message :: failure.causes)

end Failure

/-- Puts a context around the failure of a step. -/
def withContext {α : Type} (context : String) (outcome : Except Failure α) :
    Except Failure α :=
  match outcome with
  | .ok value => .ok value
  | .error failure => .error (failure.within context)

end ElmAtlas
