import ElmAtlas.Command
import ElmAtlas.CommandLine.Arguments
import ElmAtlas.Environment

/-!
# The host of a command line

What a command line finds outside of itself and of the disk: the environment, the tools that it
starts, the two streams that it prints to, and the texts about its own words, which another
library writes.  All of it is left open, so nothing is known of a tool and a stream may refuse
what is printed.
-/

namespace ElmAtlas.CommandLine

/-- A stream that is printed to.  After the pieces that it has taken it takes another one, or
refuses it for a reason. -/
abbrev Outlet := (taken : List String) → (piece : String) → Option String

namespace Outlet

def takesAll : Outlet := fun _ _ => none

/-- Prints one piece after another, up to one that is refused.  Returns what was taken, and the
reason if there is one. -/
def print (outlet : Outlet) (taken : List String) : List String → List String × Option String
  | [] => (taken, none)
  | piece :: pieces =>
      match outlet taken piece with
      | none => outlet.print (taken ++ [piece]) pieces
      | some reason => (taken, some reason)

end Outlet

structure Host where
  environment : Environment
  invoke : Invoker (StateM Disk)
  /-- Why no thread can be started, if none can. -/
  threadRefusal : Option String := none
  output : Outlet := Outlet.takesAll
  /-- Where failures are told.  Lines of a log also go there; they are left out. -/
  errorOutput : Outlet := Outlet.takesAll
  /-- Whether the stream for errors shows colours. -/
  isTerminal : Bool := false
  /-- A script that tells a shell which words may follow the name of the program. -/
  script : Dialect → String
  /-- What is said of arguments that cannot be read. -/
  complaint : List String → String
  /-- What is said when arguments ask for help. -/
  help : List String → String

namespace Host

/-- The same host with streams that refuse nothing. -/
def takingAll (host : Host) : Host :=
  { host with output := Outlet.takesAll, errorOutput := Outlet.takesAll }

/-- The text, if the stream for errors takes it as the only one. -/
def told (host : Host) (text : String) : String :=
  match host.errorOutput [] text with
  | none => text
  | some _ => ""

end Host

end ElmAtlas.CommandLine
