import ElmAtlas.Failure

/-!
# Background tasks

Work that runs under a name beside the caller.  It may fail to start, and it may
break down before it has a result.
-/

namespace ElmAtlas

/-- Started work; none stands for work that broke down. -/
structure BackgroundTask (α : Type) where
  name : String
  outcome : Option α

namespace BackgroundTask

variable {α : Type}

/-- Starts work unless the host refuses, for the reason given. -/
def spawn (name : String) (refusal : Option String) (work : Option α) :
    Except Failure (BackgroundTask α) :=
  match refusal with
  | some reason => .error (.ofText s!"failed to spawn `{name}`: {reason}")
  | none => .ok ⟨name, work⟩

def join (task : BackgroundTask α) : Except Failure α :=
  match task.outcome with
  | some value => .ok value
  | none => .error (.ofText s!"background task `{task.name}` panicked")

end BackgroundTask

end ElmAtlas
