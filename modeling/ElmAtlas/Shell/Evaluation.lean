import ElmAtlas.Shell.Evaluation.Command

/-!
# Evaluation

Compound commands run the forms inside them; `run` ties the knot with a bound on
how deep forms nest while they run, so that a script that never ends is cut off.
-/

namespace ElmAtlas.Shell

namespace Evaluate

def loopLimit : Nat := 10000000

def atLine (line : Nat) : Act Unit :=
  modify fun session => { session with line := line }

/-- What becomes of a skip at the end of a loop's body, and whether the loop goes
on. -/
def afterBody (skip : Option Skip) : Option Skip × Bool :=
  match skip with
  | none => (none, true)
  | some (.breaking (levels + 2)) => (some (.breaking (levels + 1)), false)
  | some (.breaking _) => (none, false)
  | some (.continuing (levels + 2)) => (some (.continuing (levels + 1)), false)
  | some (.continuing _) => (none, true)
  | some .returning => (some .returning, false)

/-- Ends one round of a loop; says whether there is another one. -/
def endRound : Act Bool := do
  let session ← get
  let (skip, goesOn) := afterBody session.skip
  set { session with skip := skip }
  return goesOn

/-- Runs a loop and gives its status, which is that of the last round. -/
def withLoop (action : Act Nat) : Act Unit := do
  modify fun session => { session with loops := session.loops + 1 }
  let status ← action
  modify fun session => { session with loops := session.loops - 1, status := status }

variable (evaluate : Evaluator)

/-- Repeats a body while a condition ends as expected; `fuel` bounds the
rounds. -/
def loop (isTested expected : Bool) (condition body : Form) : (fuel : Nat) → (status : Nat) →
    Act Nat
  | 0, status => return status
  | fuel + 1, status => do
      evaluate true condition
      let after ← get
      if after.skip.isSome then
        let found := if after.skip == some .returning then after.status else status
        if ← endRound then loop isTested expected condition body fuel found else return found
      else if (after.status == 0) != expected then return status
      else
        evaluate isTested body
        let now := (← get).status
        if ← endRound then loop isTested expected condition body fuel now else return now

def forEach (isTested : Bool) (name : Octets) (body : Form) : (values : List Octets) →
    (status : Nat) → Act Nat
  | [], status => return status
  | value :: rest, _ => do
      Act.assign name value
      evaluate isTested body
      let now := (← get).status
      if ← endRound then forEach isTested name body rest now else return now

/-- Whether one of some patterns matches; they are expanded one by one. -/
def matchesAny (subject : Octets) : List Word → Act Bool
  | [] => return false
  | word :: rest => do
      let pattern ← Expand.pattern (substitute evaluate) word
      if pattern.isMatch subject then return true else matchesAny subject rest

def choice (isTested : Bool) (subject : Octets) : List (List Word × Form) → Act Unit
  | [] => Act.setStatus 0
  | (patterns, body) :: rest => do
      if ← matchesAny evaluate subject patterns then
        match body with
        | .nothing => Act.setStatus 0
        | _ => evaluate isTested body
      else choice isTested subject rest

/-- Runs a form with redirected streams; when they cannot be opened, it does not
run. -/
def redirected (isTested : Bool) (body : Form) (redirections : List Redirection) : Act Unit := do
  let targets ← Redirect.targets (substitute evaluate) redirections
  let before := (← get).descriptors
  let action : Act Unit := do
    if ← Redirect.tryOpenAll (substitute evaluate) targets then evaluate isTested body
    else checked isTested (return ())
  Act.ensuring action (Redirect.restore before redirections)

/-- Runs a form in a session of its own with redirected streams. -/
def subshell (isTested : Bool) (body : Form) (redirections : List Redirection) : Act Unit := do
  let targets ← Redirect.targets (substitute evaluate) redirections
  let action : Act Unit := do
    Redirect.openAll (substitute evaluate) false targets
    evaluate isTested body
  let finished ← apart evaluate copied action
  Act.setStatus finished.status

def unlessSkipping (action : Act Unit) : Act Unit := do
  if (← get).skip.isNone then action

/-- Runs one form by means of an evaluator for those inside it. -/
def form (isTested : Bool) : Form → Act Unit
  | .nothing => return ()
  | .simple line assignments words redirections =>
      checked isTested (simple evaluate isTested line assignments words redirections)
  | .sequence first second => do
      evaluate isTested first
      unlessSkipping (evaluate isTested second)
  | .both first second => do
      evaluate true first
      if (← get).status == 0 then unlessSkipping (evaluate isTested second)
  | .either first second => do
      evaluate true first
      if (← get).status != 0 then unlessSkipping (evaluate isTested second)
  | .negation inner => do
      evaluate true inner
      let session ← get
      unlessSkipping (Act.setStatus (if session.status == 0 then 1 else 0))
  | .pipeline forms => checked isTested (pipeline evaluate isTested none forms)
  | .background inner => background evaluate inner
  | .branch condition positive negative => do
      evaluate true condition
      unlessSkipping do
        if (← get).status == 0 then evaluate isTested positive
        else
          match negative with
          | .nothing => Act.setStatus 0
          | _ => evaluate isTested negative
  | .loop expected condition body =>
      withLoop (loop evaluate isTested expected condition body loopLimit 0)
  | .forEach line name words body => do
      atLine line
      let values ← Expand.allFields (substitute evaluate) words
      withLoop (forEach evaluate isTested name body values 0)
  | .choice line subject branches => do
      atLine line
      let text ← Expand.text (substitute evaluate) subject
      choice evaluate isTested text branches
  | .redirected line body redirections => do
      atLine line
      redirected evaluate isTested body redirections
  | .subshell line body redirections => do
      atLine line
      checked isTested (subshell evaluate isTested body redirections)
  | .definition name body =>
      modify fun session =>
        let others := session.functions.filter fun entry => entry.1 != name
        { session with functions := (name, body) :: others, status := 0 }

end Evaluate

/-- Runs forms that nest at most `fuel` deep while they run. -/
def run : (fuel : Nat) → Evaluator
  | 0 => fun _ _ => throw .leaving
  | fuel + 1 => fun isTested form => do
      unless ← Act.has 'n' do
        Evaluate.form (run fuel) isTested form

end ElmAtlas.Shell
