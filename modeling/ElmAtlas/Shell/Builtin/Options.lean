import ElmAtlas.Shell.Session

/-!
# Options of built-in commands

Options are letters behind a dash; some of them take an argument.  The options of
a script itself are switched on with a dash and off with a plus sign.
-/

namespace ElmAtlas.Shell

namespace Act

abbrev GivenOption := Char × Octets

/-- The options in one argument; the last one may take the next argument. -/
def optionLetters (plain valued : String) : Octets → List Octets →
    Act (List GivenOption × List Octets)
  | [], rest => return ([], rest)
  | letter :: letters, rest => do
      if valued.toList.contains letter then
        match letters, rest with
        | [], argument :: behind => return ([(letter, argument)], behind)
        | [], [] => fail ("No arg for -".toList ++ [letter] ++ " option".toList)
        | value, _ => return ([(letter, value)], rest)
      else if plain.toList.contains letter then
        let (more, behind) ← optionLetters plain valued letters rest
        return ((letter, []) :: more, behind)
      else fail ("Illegal option -".toList ++ [letter])

/-- The options in front of the operands.  `fuel` bounds the arguments. -/
def optionsUpTo (plain valued : String) : (fuel : Nat) → List Octets →
    Act (List GivenOption × List Octets)
  | 0, arguments => return ([], arguments)
  | fuel + 1, arguments => do
      match arguments with
      | ['-', '-'] :: rest => return ([], rest)
      | ('-' :: letter :: letters) :: rest =>
          let (found, behind) ← optionLetters plain valued (letter :: letters) rest
          let (more, operands) ← optionsUpTo plain valued fuel behind
          return (found ++ more, operands)
      | _ => return ([], arguments)

def options (plain valued : String) (arguments : List Octets) :
    Act (List GivenOption × List Octets) :=
  optionsUpTo plain valued (arguments.length + 1) arguments

def operands (arguments : List Octets) : Act (List Octets) := do
  return (← options "" "" arguments).2

/-- Shows all options, as a table or as commands that set them.  While a script is
only starting, none has been settled and all count as on. -/
def showOptions (isStart isTable : Bool) : Act Unit := do
  let session ← get
  if isTable then emit "Current option settings\n".toList
  optionTable.forM fun (name, letter) => do
    let isOn := isStart || session.has letter
    let line :=
      if isTable then Text.padRight 16 name ++ (if isOn then "on" else "off")
      else (if isOn then "set -o " else "set +o ") ++ name
    emit (line ++ "\n").toList

def switch (letter : Char) (isOn : Bool) : Act Unit := do
  if (optionTable.map Prod.snd).contains letter && letter.isAlpha then
    modify fun session => session.setOption letter isOn
  else fail ("Illegal option -".toList ++ [letter])

def switchNamed (name : Octets) (isOn : Bool) : Act Unit := do
  match optionTable.lookup (String.ofList name) with
  | some letter => modify fun session => session.setOption letter isOn
  | none => fail ("Illegal option ".toList ++ [if isOn then '-' else '+'] ++ "o ".toList ++ name)

/-- What the options in front of the arguments of a script say. -/
structure Switched where
  rest : List Octets
  isInPlace : Bool := false
  isEnded : Bool := false

/-- The letters of one argument; `o` is followed by a name. -/
def switchLetters (isStart isOn : Bool) : Octets → Switched → Act Switched
  | [], switched => return switched
  | letter :: letters, switched => do
      if letter == 'c' && isStart then
        switchLetters isStart isOn letters { switched with isInPlace := true }
      else if letter == 'l' && isStart then switchLetters isStart isOn letters switched
      else if letter == 'o' then
        match switched.rest with
        | [] =>
            showOptions isStart isOn
            switchLetters isStart isOn letters switched
        | name :: rest =>
            switchNamed name isOn
            switchLetters isStart isOn letters { switched with rest := rest }
      else
        switch letter isOn
        switchLetters isStart isOn letters switched

/-- Reads the options in front of the arguments.  `isStart` says that the script
is only starting; `fuel` bounds the arguments. -/
def switchAll (isStart : Bool) : (fuel : Nat) → Switched → Act Switched
  | 0, switched => return switched
  | fuel + 1, switched => do
      match switched.rest with
      | ['-'] :: rest =>
          unless isStart do
            switch 'x' false
            switch 'v' false
          return { switched with rest := rest }
      | ['-', '-'] :: rest => return { switched with rest := rest, isEnded := true }
      | ('-' :: letters) :: rest =>
          let next ← switchLetters isStart true letters { switched with rest := rest }
          switchAll isStart fuel next
      | ('+' :: letters) :: rest =>
          let next ← switchLetters isStart false letters { switched with rest := rest }
          switchAll isStart fuel next
      | _ => return switched

end Act

end ElmAtlas.Shell
