import ElmAtlas.Toolchain

/-!
# Arguments of the command line

A command line is read level by level: switches, options with values and at most
one operand, then perhaps a command that opens the next level.  Some switches and
options may stand at every level.  Reading stops at the first argument that does
not fit or that asks for help.
-/

namespace ElmAtlas.CommandLine

/-- The shells that completion scripts are written for. -/
inductive Dialect where
  | bash
  | elvish
  | fish
  | powershell
  | zsh
  deriving DecidableEq, Repr

namespace Dialect

def all : List Dialect :=
  [bash, elvish, fish, powershell, zsh]

def name : Dialect → String
  | bash => "bash"
  | elvish => "elvish"
  | fish => "fish"
  | powershell => "powershell"
  | zsh => "zsh"

def ofName? (text : String) : Option Dialect :=
  all.find? fun dialect => dialect.name == text

end Dialect

inductive Halt where
  | usage
  | help
  | version
  deriving DecidableEq, Repr

inductive ValueKind where
  | path
  | truth
  | dialect
  deriving DecidableEq, Repr

namespace ValueKind

/-- A path must not be empty; other values are taken from a list. -/
def admits : ValueKind → String → Bool
  | path, text => !text.isEmpty
  | truth, text => text == "true" || text == "false"
  | dialect, text => (Dialect.ofName? text).isSome

end ValueKind

structure Switch where
  long : String
  short : Option Char
  deriving DecidableEq, Repr

structure Valued where
  long : String
  short : Option Char
  kind : ValueKind
  deriving DecidableEq, Repr

/-- What may be written at one level. -/
structure Level where
  switches : List Switch
  options : List Valued
  operand : Option ValueKind := none
  commands : List String := []
  deriving DecidableEq, Repr

def verboseSwitch : Switch := ⟨"verbose", some 'v'⟩

def helpSwitch : Switch := ⟨"help", some 'h'⟩

def versionSwitch : Switch := ⟨"version", some 'V'⟩

def jsonSwitch : Switch := ⟨"json", none⟩

def rootOption : Valued := ⟨"root", none, .path⟩

/-- A level below the first one. -/
def levelWith (switches : List Switch) (options : List Valued) (operand : Option ValueKind)
    (commands : List String) : Level :=
  ⟨verboseSwitch :: helpSwitch :: switches, rootOption :: options, operand, commands⟩

/-- The command that shows help, wherever there are commands. -/
def helpCommand : String := "help"

/-- The level that a list of commands leads to. -/
def levelOf? : List String → Option Level
  | [] => some (levelWith [versionSwitch] [] none
      ["discover", "attach", "detach", "projects", "which", "review", "toolchain", "state",
        "completions", helpCommand])
  | ["discover"] => some (levelWith [] [] none [])
  | ["attach"] => some (levelWith [] [] (some .path) [])
  | ["detach"] => some (levelWith [] [] (some .path) [])
  | ["projects"] => some (levelWith [jsonSwitch] [] none [])
  | ["which"] => some (levelWith [] [] (some .path) [])
  | ["review"] => some (levelWith [jsonSwitch] [] (some .path) [])
  | ["toolchain"] => some (levelWith [] [] none ["show", "suggest", "set", helpCommand])
  | ["toolchain", "show"] => some (levelWith [] [] none [])
  | ["toolchain", "suggest"] => some (levelWith [] [] none [])
  | ["toolchain", "set"] => some (levelWith []
      [⟨"elm", none, .path⟩, ⟨"elm-format", none, .path⟩, ⟨"elm-test", none, .path⟩,
        ⟨"elm-review", none, .path⟩, ⟨"format-on-save", none, .truth⟩] none [])
  | ["state"] => some (levelWith [] [] none [])
  | ["completions"] =>
      some (levelWith [] [⟨"output", some 'o', .path⟩] (some .dialect) [])
  | _ => none

/-- What was written at one level, and the command that opens the next one.  A
value that stands apart from its option is not looked at before the level goes
on, so it may still be due. -/
structure Reading where
  switches : List String := []
  values : List (String × String) := []
  due : Option (Valued × String) := none
  operand : Option String := none
  next : Option (String × List String) := none
  deriving DecidableEq, Repr

namespace Reading

def has (reading : Reading) (switch : String) : Bool :=
  reading.switches.contains switch

def value? (reading : Reading) (option : String) : Option String :=
  reading.values.lookup option

def path? (reading : Reading) (option : String) : Option Path :=
  (reading.value? option).map Path.mk

/-- Turns a switch on, once. -/
def turnOn (reading : Reading) (switch : Switch) : Except Halt Reading :=
  if switch == helpSwitch then .error .help
  else if switch == versionSwitch then .error .version
  else if reading.has switch.long then .error .usage
  else .ok { reading with switches := switch.long :: reading.switches }

def give (reading : Reading) (option : Valued) (value : String) : Except Halt Reading :=
  if (reading.value? option.long).isSome || !option.kind.admits value then .error .usage
  else .ok { reading with values := (option.long, value) :: reading.values }

/-- Gives the value that is due. -/
def settle (reading : Reading) : Except Halt Reading :=
  match reading.due with
  | none => .ok reading
  | some (option, value) => give { reading with due := none } option value

/-- Takes an operand, if the level has one and it is still free. -/
def takeOperand (reading : Reading) (level : Level) (value : String) : Except Halt Reading :=
  match level.operand, reading.operand with
  | some kind, none =>
      if kind.admits value then .ok { reading with operand := some value }
      else .error .usage
  | _, _ => .error .usage

end Reading

/-- A reading and the option that still waits for its value. -/
abbrev Progress := Reading × Option Valued

/-- Reads an argument that starts with two dashes. -/
def readLong (level : Level) (reading : Reading) (text : List Char) : Except Halt Progress :=
  let (name, attached) : String × Option String :=
    match Text.splitOnce '=' text with
    | some (name, value) => (String.ofList name, some (String.ofList value))
    | none => (String.ofList text, none)
  match level.switches.find? (·.long == name), level.options.find? (·.long == name) with
  | some switch, _ =>
      match attached with
      | none => (reading.turnOn switch).map (·, none)
      | some _ => .error .usage
  | none, some option =>
      match attached with
      | some value => (reading.give option value).map (·, none)
      | none => .ok (reading, some option)
  | none, none => .error .usage

/-- Reads the letters behind one dash; an option takes the rest as its value. -/
def readShort (level : Level) (reading : Reading) : List Char → Except Halt Progress
  | [] => .ok (reading, none)
  | letter :: letters =>
      match level.switches.find? (·.short == some letter) with
      | some switch =>
          match reading.turnOn switch with
          | .ok turned => readShort level turned letters
          | .error halt => .error halt
      | none =>
          match level.options.find? (·.short == some letter) with
          | none => .error .usage
          | some option =>
              match letters with
              | [] => .ok (reading, some option)
              | '=' :: value => (reading.give option (String.ofList value)).map (·, none)
              | value => (reading.give option (String.ofList value)).map (·, none)

/-- Whether an argument is written like a switch. -/
def isDashed (argument : String) : Bool :=
  match argument.toList with
  | '-' :: _ :: _ => true
  | _ => false

/-- Reads the arguments of a level up to a command, in front of which a value may
stay due.  Behind two lone dashes everything is an operand. -/
def read (level : Level) : (pending : Option Valued) → (onlyOperands : Bool) → Reading →
    List String → Except Halt Reading
  | none, _, reading, [] => reading.settle
  | some _, _, _, [] => .error .usage
  | some option, onlyOperands, reading, argument :: rest =>
      if isDashed argument then .error .usage
      else read level none onlyOperands { reading with due := some (option, argument) } rest
  | none, onlyOperands, reading, argument :: rest =>
      if !onlyOperands && level.commands.contains argument then
        .ok { reading with next := some (argument, rest) }
      else if !onlyOperands && argument == "--" then read level none true reading rest
      else
        let progress : Except Halt Progress := do
          let settled ← reading.settle
          match onlyOperands, argument.toList with
          | false, '-' :: '-' :: text => readLong level settled text
          | false, '-' :: letter :: letters => readShort level settled (letter :: letters)
          | _, _ => return (← settled.takeOperand level argument, none)
        match progress with
        | .ok (after, pending) => read level pending onlyOperands after rest
        | .error halt => .error halt

/-- Whether help can be shown for a list of commands. -/
def hasHelp (commands : List String) : Bool :=
  (levelOf? commands).isSome ||
    (commands.getLast? == some helpCommand &&
      ((levelOf? commands.dropLast).map fun level => !level.commands.isEmpty).getD false)

/-- The root that the environment names must not be empty where no other root is
given. -/
def checkRoot (environmentRoot : Option String) (reading : Reading) : Except Halt Unit :=
  if environmentRoot == some "" && (reading.value? rootOption.long).isNone then .error .usage
  else .ok ()

/-- Reads this level and those below it; returns the commands and the readings,
the innermost first.  A level is settled once those below it are read, so what
asks for help there is heard first. -/
def descend (environmentRoot : Option String) : (depth : Nat) → (commands : List String) →
    List String → Except Halt (List String × List Reading)
  | 0, _, _ => .error .usage
  | depth + 1, commands, arguments => do
      let some level := levelOf? commands | .error .usage
      let reading ← read level none false {} arguments
      match reading.next with
      | none =>
          if !level.commands.isEmpty || (level.operand.isSome && reading.operand.isNone) then
            .error .usage
          checkRoot environmentRoot reading
          return (commands, [reading])
      | some (command, rest) =>
          if command == helpCommand then
            if hasHelp (commands ++ rest) then .error .help else .error .usage
          let (path, readings) ← descend environmentRoot depth (commands ++ [command]) rest
          let settled ← reading.settle
          checkRoot environmentRoot settled
          return (path, readings ++ [settled])

structure ToolchainChange where
  compiler : Option Path
  formatter : Option Path
  testRunner : Option Path
  reviewer : Option Path
  formatOnSave : Option Bool
  deriving DecidableEq, Repr

namespace ToolchainChange

/-- The tools that get a new path, in order. -/
def paths (change : ToolchainChange) : List (Tool × Path) :=
  [(Tool.compiler, change.compiler), (Tool.formatter, change.formatter),
    (Tool.testRunner, change.testRunner), (Tool.reviewer, change.reviewer)].filterMap
    fun (tool, path) => path.map (tool, ·)

end ToolchainChange

inductive Action where
  | discover
  | attach (path : Path)
  | detach (path : Path)
  | projects (isJson : Bool)
  | which (file : Path)
  | review (file : Path) (isJson : Bool)
  | showTools
  | suggestTools
  | setTools (change : ToolchainChange)
  | state
  deriving DecidableEq, Repr

/-- A command line that was understood: a completion script needs no workspace,
an action works on the workspace of a root. -/
inductive Request where
  | complete (dialect : Dialect) (output : Option Path)
  | act (root : Option Path) (action : Action)
  deriving DecidableEq, Repr

/-- The action that a list of commands and the innermost reading ask for. -/
def actionOf? (commands : List String) (reading : Reading) : Option Action :=
  let operand : Option Path := reading.operand.map Path.mk
  let isJson := reading.has jsonSwitch.long
  match commands with
  | ["discover"] => some .discover
  | ["attach"] => operand.map .attach
  | ["detach"] => operand.map .detach
  | ["projects"] => some (.projects isJson)
  | ["which"] => operand.map .which
  | ["review"] => operand.map (.review · isJson)
  | ["toolchain", "show"] => some .showTools
  | ["toolchain", "suggest"] => some .suggestTools
  | ["toolchain", "set"] =>
      some (.setTools {
        compiler := reading.path? "elm"
        formatter := reading.path? "elm-format"
        testRunner := reading.path? "elm-test"
        reviewer := reading.path? "elm-review"
        formatOnSave := (reading.value? "format-on-save").map (· == "true") })
  | ["state"] => some .state
  | _ => none

def completionOf? (commands : List String) (reading : Reading) : Option Request :=
  if commands == ["completions"] then
    (reading.operand.bind Dialect.ofName?).map (.complete · (reading.path? "output"))
  else none

/-- Reads a command line.  The innermost root wins, and any root that is written
wins over that of the environment. -/
def parse (environmentRoot : Option String) (arguments : List String) :
    Except Halt Request := do
  let (commands, readings) ← descend environmentRoot 4 [] arguments
  let root := (readings.findSome? (·.path? rootOption.long)).or (environmentRoot.map Path.mk)
  let innermost := readings.headD {}
  match completionOf? commands innermost, actionOf? commands innermost with
  | some request, _ => return request
  | none, some action => return .act root action
  | none, none => .error .usage

end ElmAtlas.CommandLine
