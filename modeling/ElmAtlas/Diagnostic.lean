import ElmAtlas.Failure
import ElmAtlas.Path.Basic

/-!
# Diagnostics

What the user is told: what went wrong, what caused it and what to do about it.
-/

namespace ElmAtlas

inductive Severity where
  | error
  | warning
  deriving DecidableEq, Repr

namespace Severity

def toText : Severity → String
  | error => "error"
  | warning => "warning"

/-- The text in the colour of the severity. -/
def colored : Severity → String
  | error => "\x1b[1;31merror\x1b[0m"
  | warning => "\x1b[1;33mwarning\x1b[0m"

end Severity

/-- An error as it is reported: its causes, a way out and a stable code. -/
structure Report where
  message : String
  causes : List String
  help : Option String
  code : String
  deriving DecidableEq, Repr

structure Diagnostic where
  severity : Severity
  message : String
  context : List String
  suggestions : List String
  location : Option Path
  deriving DecidableEq, Repr

namespace Diagnostic

/-- Causes come first and the code last. -/
def ofReport (report : Report) : Diagnostic where
  severity := .error
  message := report.message
  context := report.causes ++ [s!"[{report.code}]"]
  suggestions := report.help.toList
  location := none

def ofFailure (failure : Failure) : Diagnostic where
  severity := .error
  message := failure.message
  context := failure.causes
  suggestions := []
  location := none

def withSuggestion (diagnostic : Diagnostic) (suggestion : String) : Diagnostic :=
  { diagnostic with suggestions := diagnostic.suggestions ++ [suggestion] }

/-- Suggestions are numbered from the given number on. -/
def numbered : (number : Nat) → List String → String
  | _, [] => ""
  | number, suggestion :: rest =>
      s!"  {number}. {suggestion}\n" ++ numbered (number + 1) rest

def render (diagnostic : Diagnostic) (color : Bool) : String :=
  let severity :=
    if color then diagnostic.severity.colored else diagnostic.severity.toText
  let location :=
    match diagnostic.location with
    | some path => s!"  --> {path}\n"
    | none => ""
  let context := String.join (diagnostic.context.map fun line => s!"  → {line}\n")
  let help := if color then "\x1b[1;32mhelp\x1b[0m" else "help"
  let suggestions :=
    if diagnostic.suggestions.isEmpty then ""
    else s!"\n{help}: consider:\n" ++ numbered 1 diagnostic.suggestions
  s!"{severity}: {diagnostic.message}\n" ++ location ++ context ++ suggestions

end Diagnostic

end ElmAtlas
