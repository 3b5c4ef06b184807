import ElmAtlas.CommandLine.Arguments

/-!
# Texts of the machine

How the program speaks of its own words when it is run on its own: the scripts that complete
them, and what is said of arguments that start nothing.
-/

namespace ElmAtlas.Machine

open CommandLine (Dialect)

def programName : String :=
  "elm-workspace"

/-- The commands of the first level, with spaces between them. -/
def commandWords : String :=
  String.intercalate " " (((CommandLine.levelOf? []).map CommandLine.Level.commands).getD [])

def script : Dialect → String
  | .bash => s!"complete -W '{commandWords}' {programName}\n"
  | .elvish =>
      s!"set edit:completion:arg-completer[{programName}] = " ++
        "\x7b|@words| put " ++ commandWords ++ " \x7d\n"
  | .fish => s!"complete -c {programName} -n __fish_use_subcommand -f -a '{commandWords}'\n"
  | .powershell =>
      s!"Register-ArgumentCompleter -Native -CommandName {programName} -ScriptBlock " ++
        "\x7b param($word) '" ++ commandWords ++
        "' -split ' ' | Where-Object \x7b $_ -like \"$word*\" \x7d \x7d\n"
  | .zsh => s!"#compdef {programName}\n_arguments '1: :({commandWords})'\n"

def usage : String :=
  s!"Usage: {programName} [OPTIONS] <COMMAND>\n\nCommands: {commandWords}\n"

end ElmAtlas.Machine
