import ElmAtlas.Shell.Evaluation.Builtin

/-!
# Simple commands

A simple command is expanded, redirected and run.  Which command it is decides how
its arguments are expanded and whether its assignments stay.
-/

namespace ElmAtlas.Shell

/-- The commands whose arguments are values when they look like assignments. -/
def assigningCommands : List String :=
  ["alias", "export", "local", "readonly"]

/-- The front of a command as far as it was expanded.  The command itself begins at
`start`, behind words that only say how to look it up. -/
structure Lead where
  fields : List Octets := []
  waiting : List Word
  start : Nat := 0
  skipsFunctions : Bool := false
  usesStandardPath : Bool := false

namespace Evaluate

def callLimit : Nat := 1000

variable (evaluate : Evaluator)

/-- Expands words until there is a field at an index, or no word is left. -/
def fill (index : Nat) (lead : Lead) : List Word → Act Lead
  | [] => return { lead with waiting := [] }
  | word :: rest => do
      if index < lead.fields.length then return { lead with waiting := word :: rest }
      let found ← Expand.fields (substitute evaluate) word
      fill index { lead with fields := lead.fields ++ found } rest

/-- Steps over the options of `command`.  Without a command behind them, or with
options that ask what one is, nothing is stepped over.  `fuel` bounds the
options. -/
def pastOptions : (fuel : Nat) → (index : Nat) → (isStandard : Bool) → Lead → Act (Lead × Bool)
  | 0, _, _, lead => return (lead, false)
  | fuel + 1, index, isStandard, lead => do
      let lead ← fill evaluate index lead lead.waiting
      let found (lead : Lead) (index : Nat) : Lead × Bool :=
        ({ lead with
            start := index
            skipsFunctions := true
            usesStandardPath := isStandard }, true)
      match lead.fields[index]? with
      | none => return (lead, false)
      | some ['-', '-'] =>
          let lead ← fill evaluate (index + 1) lead lead.waiting
          if index + 1 < lead.fields.length then return found lead (index + 1)
          else return (lead, false)
      | some ('-' :: letter :: letters) =>
          if (letter :: letters).all (· == 'p') then pastOptions fuel (index + 1) true lead
          else return (lead, false)
      | some _ => return found lead index

/-- Steps over `command` as often as it stands there. -/
def pastCommand : (fuel : Nat) → Lead → Act Lead
  | 0, lead => return lead
  | fuel + 1, lead => do
      let name := (lead.fields[lead.start]?).getD []
      match kindOf (← get) lead.skipsFunctions name with
      | .builtin "command" =>
          let (next, isFound) ←
            pastOptions evaluate (lead.fields.length + lead.waiting.length + 1) (lead.start + 1)
              lead.usesStandardPath lead
          if isFound then pastCommand fuel next else return next
      | _ => return lead

def leadOf (words : List Word) : Act Lead := do
  let lead ← fill evaluate 0 { waiting := words } words
  if lead.fields.isEmpty then return lead
  pastCommand evaluate (lead.fields.length + words.length + 1) lead

/-- Expands the words behind; for some commands those that look like assignments
are values. -/
def trailing (assigns : Bool) : List Word → Act (List Octets)
  | [] => return []
  | word :: rest => do
      let found ←
        match assigns, word.assignment? with
        | true, some (name, value) => do
            pure [name ++ '=' :: (← Expand.value (substitute evaluate) value)]
        | _, _ => Expand.fields (substitute evaluate) word
      return found ++ (← trailing assigns rest)

def exportVariable (name : Octets) : Act Unit :=
  modify fun session =>
    let binding := (session.binding? name).getD {}
    session.bind name (some { binding with isExported := true })

/-- Assigns from left to right and gives the assignments as they are shown.
`isLocal` says that they are for one command only. -/
def assignAll (isLocal isExported : Bool) : List (Octets × Word) → Act (List Octets)
  | [] => return []
  | (name, word) :: rest => do
      let value ← Expand.value (substitute evaluate) word
      if isLocal then Act.saveLocal name
      Act.assign name value
      if isLocal || isExported then exportVariable name
      return (name ++ '=' :: value) :: (← assignAll isLocal isExported rest)

/-- Shows a command before it runs, on the stream for errors as it was before. -/
def trace (stream : Option Nat) (shown : List Octets) : Act Unit := do
  if ← Act.has 'x' then
    let lead ←
      match readText ((← get).textOf "PS4") with
      | .ok text => do
          modify fun session => session.setOption 'x' false
          let lead ← Expand.document (substitute evaluate) text
          modify fun session => session.setOption 'x' true
          pure lead
      | .error _ => pure ((← get).textOf "PS4")
    modify fun session =>
      let before := session.descriptors
      let joined :=
        match stream with
        | some index => session.join 2 index
        | none => session
      { (joined.write 2 (lead ++ Text.join [' '] shown ++ ['\n'])).1 with descriptors := before }

def callFunction (isTested : Bool) (body : Form) (arguments : List Octets) : Act Unit := do
  let session ← get
  if callLimit ≤ session.calls then
    Act.fail (s!"Maximum function recursion depth ({callLimit}) reached").toList
  set { session with
    arguments := arguments
    optionIndex := 1
    optionOffset := none
    loops := 0
    calls := session.calls + 1 }
  Act.ensuring (evaluate isTested body) fun finished =>
    { finished with
      arguments := session.arguments
      optionIndex := session.optionIndex
      optionOffset := session.optionOffset
      loops := session.loops
      calls := session.calls
      skip := if finished.skip == some .returning then none else finished.skip }

/-- Runs a built-in command.  Its failure stops the script only when the command is
special. -/
def runBuiltin (isTested isSpecial : Bool) (name : Octets) (arguments : List Octets) :
    Act Unit := do
  let action := named name (builtin evaluate isTested (String.ofList name) arguments)
  if isSpecial then action
  else
    try action
    catch stop =>
      if stop == .leaving then throw stop

structure Known where
  kind : Option Kind
  lead : Lead
  fields : List Octets
  isSpecial : Bool

namespace Known

def name (known : Known) : Octets :=
  (known.fields[known.lead.start]?).getD []

def arguments (known : Known) : List Octets :=
  known.fields.drop (known.lead.start + 1)

/-- Whether redirections stay: they do when the command is `exec`. -/
def keepsRedirections (known : Known) : Bool :=
  match known.kind with
  | some (.builtin "exec") => true
  | _ => false

end Known

def knownOf (words : List Word) : Act Known := do
  let lead ← leadOf evaluate words
  let session ← get
  match lead.fields[lead.start]? with
  | none => return { kind := none, lead := lead, fields := lead.fields, isSpecial := false }
  | some name =>
      let kind := kindOf session lead.skipsFunctions name
      let assigns :=
        match kind with
        | .builtin found => assigningCommands.contains found
        | _ => false
      let rest ← trailing evaluate assigns lead.waiting
      let first := String.ofList (lead.fields.headD [])
      return {
        kind := some kind
        lead := lead
        fields := lead.fields ++ rest
        isSpecial := specialCommands.contains first }

def perform (isTested : Bool) (known : Known) : Act Unit := do
  match known.kind with
  | none => Act.setStatus (← get).substitutionStatus
  | some (.builtin _) =>
      runBuiltin evaluate isTested known.isSpecial known.name known.arguments
  | some (.function body) => callFunction evaluate isTested body known.arguments
  | some .program =>
      let session ← get
      let searchPath :=
        if known.lead.usesStandardPath then standardPath else searchPathOf session
      external evaluate searchPath known.name known.arguments

def withAssignments (isTested isLocal : Bool) (assignments : List (Octets × Word))
    (known : Known) (stream : Option Nat) : Act Unit := do
  let isExported := known.keepsRedirections && !known.arguments.isEmpty
  let shown ← assignAll evaluate isLocal isExported assignments
  trace evaluate stream (shown ++ known.fields)
  perform evaluate isTested known

/-- Runs a simple command.  Its assignments are for the command only, unless it is
special or there is none. -/
def simple (isTested : Bool) (line : Nat) (assignments : List (Octets × Word))
    (words : List Word) (redirections : List Redirection) : Act Unit := do
  modify fun session => { session with line := line, substitutionStatus := 0 }
  let known ← knownOf evaluate words
  let isLocal := known.kind.isSome && !known.isSpecial
  let action : Act Unit := do
    let targets ← Redirect.targets (substitute evaluate) redirections
    let before := (← get).descriptors
    let redirected : Act Unit := do
      if ← Redirect.tryOpenAll (substitute evaluate) targets then
        withAssignments evaluate isTested isLocal assignments known (before.lookup 2)
      else if known.isSpecial then throw .failed
    Act.ensuring redirected fun session =>
      if known.keepsRedirections then session else Redirect.restore before redirections session
  if isLocal then Act.withLocals action else action

end Evaluate

end ElmAtlas.Shell
