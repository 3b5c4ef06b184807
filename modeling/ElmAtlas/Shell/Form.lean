import ElmAtlas.Shell.Source

/-!
# Forms of a script

A script is a list of forms, built from simple commands by sequencing, choice and
repetition.  Forms that can fail on their own keep the line they begin on.
-/

namespace ElmAtlas.Shell

structure Redirection where
  descriptor : Nat
  direction : Direction
  target : Word

inductive Form where
  | nothing
  | simple (line : Nat) (assignments : List (Octets × Word)) (words : List Word)
      (redirections : List Redirection)
  | sequence (first second : Form)
  | both (first second : Form)
  | either (first second : Form)
  | negation (form : Form)
  | pipeline (forms : List Form)
  | background (form : Form)
  | branch (condition positive negative : Form)
  | loop (expected : Bool) (condition body : Form)
  | forEach (line : Nat) (name : Octets) (words : List Word) (body : Form)
  | choice (line : Nat) (subject : Word) (branches : List (List Word × Form))
  | redirected (line : Nat) (body : Form) (redirections : List Redirection)
  | subshell (line : Nat) (body : Form) (redirections : List Redirection)
  | definition (name : Octets) (body : Form)

instance : Inhabited Form := ⟨.nothing⟩

namespace Form

def andThen : Form → Form → Form
  | first, .nothing => first
  | first, second => .sequence first second

/-- A form with redirections behind it.  A group that is only a subshell takes them
in place of those of the subshell. -/
def redirectedBy (line : Nat) (redirections : List Redirection) : Form → Form
  | .subshell start body inner =>
      .subshell start body (if redirections.isEmpty then inner else redirections)
  | form => if redirections.isEmpty then form else .redirected line form redirections

end Form

namespace Operator

def shown : Operator → String
  | newline => "newline"
  | semicolon => "\";\""
  | doubleSemicolon => "\";;\""
  | background => "\"&\""
  | both => "\"&&\""
  | either => "\"||\""
  | pipe => "\"|\""
  | opening => "\"(\""
  | closing => "\")\""

end Operator

def keywords : List String :=
  ["!", "case", "do", "done", "elif", "else", "esac", "fi", "for", "if", "in", "then", "until",
    "while", "\x7b", "\x7d"]

def specialCommands : List String :=
  [".", ":", "break", "continue", "eval", "exec", "exit", "export", "local", "readonly",
    "return", "set", "shift", "times", "trap", "unset"]

namespace Token

def keyword? : Token → Option String
  | .word found =>
      match found.plain? with
      | some octets =>
          let text := String.ofList octets
          if keywords.contains text then some text else none
      | none => none
  | _ => none

def isOperator (token : Token) (sign : Operator) : Bool :=
  match token with
  | .operator found => found == sign
  | _ => false

/-- How messages name a token; keywords have their own names where they
count. -/
def shown (countsKeywords : Bool) (token : Token) : String :=
  match token with
  | .operator sign => sign.shown
  | .redirection _ _ => "redirection"
  | .finish => "end of file"
  | .word _ =>
      match countsKeywords, token.keyword? with
      | true, some keyword => "\"" ++ keyword ++ "\""
      | _, _ => "word"

def endsList (token : Token) : Bool :=
  match token with
  | .finish => true
  | .operator sign => sign == .doubleSemicolon || sign == .closing
  | .redirection _ _ => false
  | .word _ =>
      match token.keyword? with
      | some keyword =>
          ["do", "done", "elif", "else", "esac", "fi", "then", "\x7d"].contains keyword
      | none => false

end Token

end ElmAtlas.Shell
