import ElmAtlas.Shell.Builtin.Options
import ElmAtlas.Shell.Fields
import ElmAtlas.Shell.Numeral

/-!
# Built-in commands on variables and arguments
-/

namespace ElmAtlas.Shell.Builtin

open Act

/-- Text in single quotes; a quote inside it stands in double quotes. -/
def singleQuoted (octets : Octets) : Octets :=
  let isQuote (octet : Char) : Bool := octet == '\''
  let rec pieces : (fuel : Nat) → Octets → Octets
    | 0, _ => []
    | _ + 1, [] => []
    | fuel + 1, octets =>
        let plain := octets.takeWhile fun octet => !isQuote octet
        let behind := octets.dropWhile fun octet => !isQuote octet
        let quotes := behind.takeWhile isQuote
        (['\''] ++ plain ++ ['\'']) ++
          (if quotes.isEmpty then [] else ['"'] ++ quotes ++ ['"']) ++
          pieces fuel (behind.dropWhile isQuote)
  if octets.isEmpty then ['\'', '\''] else pieces (octets.length + 1) octets

def showVariables (lead : Octets) (isShown : Variable → Bool) : Act Unit := do
  let session ← get
  let listed := (session.bindings.filter fun entry => isShown entry.2).mergeSort
    fun left right => !Glob.comesBefore right.1 left.1
  listed.forM fun (name, binding) => do
    let value :=
      match binding.value with
      | some value => '=' :: singleQuoted value
      | none => []
    emit ((if lead.isEmpty then [] else lead ++ [' ']) ++ name ++ value ++ ['\n'])

/-- Checks the name in front of an equals sign, and gives it with the value. -/
def nameAndValue (argument : Octets) : Act (Octets × Option Octets) := do
  let name := argument.takeWhile (· != '=')
  if !isName name then fail (name ++ ": bad variable name".toList)
  match argument.dropWhile (· != '=') with
  | _ :: value => return (name, some value)
  | [] => return (name, none)

/-- `export` and `readonly`: sets variables and marks them. -/
def mark (lead : Octets) (isMarked : Variable → Bool) (change : Variable → Variable)
    (arguments : List Octets) : Act Unit := do
  setStatus 0
  let (given, names) ← options "p" "" arguments
  if names.isEmpty || !given.isEmpty then showVariables lead isMarked
  else
    names.forM fun argument => do
      let (name, value) ← nameAndValue argument
      match value with
      | some value => assign name value
      | none => pure ()
      modify fun session =>
        session.bind name (some (change ((session.binding? name).getD {})))

/-- `unset`: takes variables or functions away. -/
def unset (arguments : List Octets) : Act Unit := do
  setStatus 0
  let (given, names) ← options "vf" "" arguments
  names.forM fun name => do
    let session ← get
    if (given.getLast?.map Prod.fst) == some 'f' then
      set { session with functions := session.functions.filter fun entry => entry.1 != name }
    else
      let (name, _) ← nameAndValue name
      match session.binding? name with
      | none => return ()
      | some binding =>
          if binding.isReadOnly then fail (name ++ ": is read only".toList)
          set (session.bind name none)

/-- `local`: gives a function variables of its own, which begin with the values
that they have outside. -/
def makeLocal (arguments : List Octets) : Act Unit := do
  setStatus 0
  if (← get).locals.isEmpty then failText "not in a function"
  (← operands arguments).forM fun argument => do
    unless argument == ['-'] do
      let (name, value) ← nameAndValue argument
      saveLocal name
      match value with
      | some value => assign name value
      | none => pure ()

def count (argument : Octets) : Act Nat :=
  match Numeral.count? argument with
  | some number => return number
  | none => fail ("Illegal number: ".toList ++ argument)

/-- `shift`: drops arguments. -/
def shift (arguments : List Octets) : Act Unit := do
  let number ←
    match arguments with
    | [] => pure 1
    | argument :: _ => count argument
  let session ← get
  if session.arguments.length < number then failText "can't shift that many"
  set { session with
    arguments := session.arguments.drop number
    status := 0
    optionIndex := 1
    optionOffset := none }

/-- `set`: changes options and arguments, or shows all variables. -/
def setAll (arguments : List Octets) : Act Unit := do
  setStatus 0
  if arguments.isEmpty then showVariables [] fun binding => binding.value.isSome
  else
    let switched ← switchAll false (arguments.length + 1) { rest := arguments }
    if switched.isEnded || !switched.rest.isEmpty then
      modify fun session =>
        { session with arguments := switched.rest, optionIndex := 1, optionOffset := none }

/-- Octets up to the end of a line; a backslash quotes the next octet and joins
lines.  Also says how many octets were used and whether the line had an end. -/
def lineOf (isRaw : Bool) : Octets → List Marked × Nat × Bool
  | [] => ([], 0, false)
  | '\n' :: _ => ([], 1, true)
  | '\\' :: octet :: rest =>
      if isRaw then
        let (line, used, isComplete) := lineOf isRaw (octet :: rest)
        (('\\', false) :: line, used + 1, isComplete)
      else
        let (line, used, isComplete) := lineOf isRaw rest
        (if octet == '\n' then line else (octet, true) :: line, used + 2, isComplete)
  | octet :: rest =>
      let (line, used, isComplete) := lineOf isRaw rest
      if octet == '\x00' || (octet == '\\' && !isRaw) then (line, used + 1, isComplete)
      else ((octet, false) :: line, used + 1, isComplete)

/-- Gives fields to variables; those without a field become empty. -/
def assignFields : List Octets → List Octets → Act Unit
  | [], _ => return ()
  | name :: names, values => do
      if !isName name then fail (name ++ ": bad variable name".toList)
      assign name (values.headD [])
      assignFields names values.tail

/-- `read`: reads a line into variables; fails when the input ends first. -/
def readLineInto (arguments : List Octets) : Act Unit := do
  let (given, names) ← options "r" "p" arguments
  if names.isEmpty then failText "arg count"
  let session ← get
  let waiting := (session.remaining? 0).getD []
  let (line, used, isComplete) := lineOf (given.any fun option => option.1 == 'r') waiting
  set (session.advance 0 used)
  let fields := lineFields ⟨session.separators⟩ names.length false [] line
  assignFields names fields
  setStatus (if isComplete then 0 else 1)

/-- What looking for the next option finds: the letter, its argument, and where to
go on. -/
structure Found where
  letter : Char := '?'
  argument : Option Octets := some []
  problem : Octets := []
  index : Nat
  offset : Option Nat := none
  isDone : Bool := false

/-- Whether an option takes an argument; none when there is no such option. -/
def takesArgument? (letter : Char) : Octets → Option Bool
  | [] => none
  | found :: ':' :: rest => if found == letter then some true else takesArgument? letter rest
  | found :: rest => if found == letter then some false else takesArgument? letter rest

/-- Looks for the next option in the arguments, from a place on. -/
def nextOption (known : Octets) (arguments : List Octets) (index : Nat) (offset : Option Nat) :
    Found :=
  let isQuiet := known.head? == some ':'
  let current := (arguments[index - 2]?).getD []
  let here :=
    match offset with
    | some place => if 2 ≤ index && place < current.length then current.drop place else []
    | none => []
  let start : Option (Octets × Nat) :=
    if !here.isEmpty then some (here, index)
    else
      match arguments[index - 1]? with
      | some ('-' :: letter :: letters) => some (letter :: letters, index + 1)
      | _ => none
  match start with
  | none => { index := index, isDone := true }
  | some ([], next) => { index := next, isDone := true }
  | some (letter :: letters, next) =>
      if here.isEmpty && letter == '-' && letters.isEmpty then { index := next, isDone := true }
      else
        let behind : Option Nat :=
          if letters.isEmpty then none
          else some (((arguments[next - 2]?).getD []).length - letters.length)
        match takesArgument? letter known with
        | none =>
            if isQuiet then { argument := some [letter], index := next, offset := behind }
            else
              { argument := none
                problem := "Illegal option -".toList ++ [letter, '\n']
                index := next
                offset := behind }
        | some false => { letter := letter, index := next, offset := behind }
        | some true =>
            if !letters.isEmpty then { letter := letter, argument := some letters, index := next }
            else
              match arguments[next - 1]? with
              | some argument => { letter := letter, argument := some argument, index := next + 1 }
              | none =>
                  if isQuiet then { letter := ':', argument := some [letter], index := next }
                  else
                    { argument := none
                      problem := "No arg for -".toList ++ [letter] ++ " option\n".toList
                      index := next }

/-- `getopts`: puts the next option into a variable; fails when there is none. -/
def getOption (arguments : List Octets) : Act Unit := do
  match arguments with
  | known :: name :: given =>
      let session ← get
      let listed := if given.isEmpty then session.arguments else given
      let isBeyond := listed.length + 1 < session.optionIndex
      let index := if isBeyond then 1 else session.optionIndex
      let offset := if isBeyond then none else session.optionOffset
      let found := nextOption known listed index offset
      modify fun session => (session.write 2 found.problem).1
      match found.argument with
      | some argument => unless found.isDone do assign "OPTARG".toList argument
      | none => modify fun session => session.bind "OPTARG".toList none
      assign "OPTIND".toList (toString found.index).toList
      assign name [found.letter]
      modify fun session =>
        { session with
          optionIndex := found.index
          optionOffset := found.offset
          status := if found.isDone then 1 else 0 }
  | _ => failText "Usage: getopts optstring var [arg...]"

end ElmAtlas.Shell.Builtin
