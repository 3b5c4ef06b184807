import ElmAtlas.Path.Basic

/-!
# Commands

A command names a program, its arguments and the directory to run it in.  How
commands are run is left open: an invoker is any effect that answers a command
with the captured output, or with the reason why the program did not start.
-/

namespace ElmAtlas

structure Command where
  program : Path
  arguments : List String
  directory : Option Path
  deriving DecidableEq, Repr

namespace Command

/-- The command as messages show it. -/
def toText (command : Command) : String :=
  String.intercalate " " (command.program.text :: command.arguments)

end Command

/-- What a finished process left; there is no status when it was killed. -/
structure ToolOutput where
  status : Option Int
  stdout : String
  stderr : String
  deriving DecidableEq, Repr

namespace ToolOutput

def isSuccess (output : ToolOutput) : Bool :=
  output.status == some 0

end ToolOutput

abbrev Invoker (m : Type → Type) := Command → m (Except String ToolOutput)

end ElmAtlas
