import ElmAtlas.Shell.Source

/-!
# Reading words

Words are read up to an octet that ends them.  Inside quotes and brackets other
octets are special, which a `Stretch` says.  Scripts inside words are read by the
readers in `Inner`, so that nothing here depends on how commands look.
-/

namespace ElmAtlas.Shell

inductive Closing where
  | word
  | quote
  | brace
  | arithmetic (depth : Nat)
  deriving DecidableEq, Repr

/-- The line that ends an inline document, and how the lines before it are read:
without the tabs in front of them, or with nothing put in. -/
structure Mark where
  octets : Octets
  stripsTabs : Bool := false
  isLiteral : Bool := false

/-- What holds where fragments are read: `isInBraces` inside a modified parameter,
`document` in an inline document, `isMark` in the word that ends one. -/
structure Stretch where
  closing : Closing
  isQuoted : Bool := false
  isInBraces : Bool := false
  document : Option Mark := none
  isMark : Bool := false

/-- How scripts inside words are read: up to a closing bracket, or as a whole. -/
structure Inner where
  bracketed : Reader Unit
  whole : Octets → Reader Unit

namespace Read

/-- What is behind the mark when it is the whole of the first line. -/
def behindMark? (mark octets : Octets) : Option Octets :=
  if octets == mark then some []
  else if (mark ++ ['\n']).isPrefixOf octets then some (octets.drop (mark.length + 1))
  else none

/-- At the start of a line: steps over tabs, and over the mark if it stands
there. -/
def atMark (mark : Mark) : Reader Bool := do
  unless mark.isLiteral do skipJoins
  if mark.stripsTabs then
    modify fun source => { source with octets := source.octets.dropWhile (· == '\t') }
  let source ← get
  match behindMark? mark.octets source.octets with
  | some rest =>
      set { source with octets := rest, line := source.line + 1 }
      return true
  | none => return false

/-- Text ends before its quotes do.  In a document only braces are missed. -/
def unclosed {α : Type} (isDocument : Bool) : Reader α :=
  if isDocument then fault "Missing '\x7d'" else fault "Unterminated quoted string"

/-- Behind a line end: a document may end here, whatever is still open. -/
def afterLineEnd (octet : Char) (document : Option Mark) : Reader Unit := do
  match octet, document with
  | '\n', some mark => if ← atMark mark then unclosed true
  | _, _ => return ()

def single (document : Option Mark) : (fuel : Nat) → Reader Octets
  | 0 => return []
  | fuel + 1 => do
      match ← next with
      | none => unclosed document.isSome
      | some '\'' => return []
      | some octet =>
          afterLineEnd octet document
          return octet :: (← single document fuel)

/-- Octets up to a backquote, with the escapes of a backquoted script undone. -/
def backquoted (isQuoted : Bool) : (fuel : Nat) → Reader Octets
  | 0 => return []
  | fuel + 1 => do
      skipJoins
      match ← next with
      | none => fault "EOF in backquote substitution"
      | some '\x60' => return []
      | some '\\' =>
          match ← next with
          | none => return '\\' :: (← backquoted isQuoted fuel)
          | some octet =>
              let rest ← backquoted isQuoted fuel
              if octet == '\\' || octet == '\x60' || octet == '$' || (isQuoted && octet == '"') then
                return octet :: rest
              else
                return '\\' :: octet :: rest
      | some octet => return octet :: (← backquoted isQuoted fuel)

/-- What a backslash makes of the octet behind it; none when it joins lines. -/
def escape (stretch : Stretch) : Reader (Option Octets) := do
  match ← next with
  | none => return some ['\\']
  | some '\n' => return none
  | some octet =>
      let isEscapable :=
        octet == '\\' || octet == '\x60' || octet == '$' ||
          (octet == '"' && (stretch.document.isNone || stretch.isInBraces)) ||
          (octet == '\x7d' && stretch.isInBraces)
      return some (if stretch.isQuoted && !isEscapable then ['\\', octet] else [octet])

/-- The modifier behind a parameter name, and whether an empty value counts as
unset.  What is no modifier is taken too. -/
def modifier : Reader (Option (Modifier × Bool)) := do
  let colon ← accept ':'
  let sign ← peekJoined
  skip
  match sign, colon with
  | some '-', _ => return some (.orElse, colon)
  | some '=', _ => return some (.orAssign, colon)
  | some '?', _ => return some (.orFail, colon)
  | some '+', _ => return some (.instead, colon)
  | some '%', false => return some (.withoutEnd (← accept '%'), false)
  | some '#', false => return some (.withoutStart (← accept '#'), false)
  | _, _ => return none

/-- What stands in front of the modifier in braces. -/
inductive Subject where
  | parameter (name : Octets)
  | size (name : Octets)
  | wrong

def plainName (fuel : Nat) : Reader (Option Octets) := do
  match ← peekJoined with
  | none => return none
  | some octet =>
      if isNameStart octet then return some (← takeWhile isNamePart fuel)
      else if octet.isDigit then return some (← takeWhile Char.isDigit fuel)
      else return none

/-- What a number sign means: the size of the parameter behind it, or itself. -/
def behindNumberSign (fuel : Nat) : Reader Subject := do
  match ← plainName fuel with
  | some name => return .size name
  | none =>
      let here ← get
      match ← peekJoined with
      | none => return .parameter ['#']
      | some octet =>
          skip
          let next ← peekJoined
          if octet == '\x7d' || next != some '\x7d' then
            set here
            return .parameter ['#']
          else return if isSpecial octet then .size [octet] else .wrong

def subject (fuel : Nat) : Reader Subject := do
  match ← plainName fuel with
  | some name => return .parameter name
  | none =>
      match ← peekJoined with
      | none | some '\x7d' => return .wrong
      | some '#' =>
          skip
          behindNumberSign fuel
      | some octet =>
          skip
          return if isSpecial octet then .parameter [octet] else .wrong

/-- The octets that were read since an earlier place, without the last one. -/
def between (start : Octets) : Reader Octets := do
  return start.take (start.length - (← get).octets.length - 1)

/-- A script up to its closing bracket.  Documents that the line announced come
behind the line, not inside the script. -/
def bracketedScript (inner : Inner) : Reader (Octets × Nat) := do
  let start ← get
  set { start with afterLine := none }
  inner.bracketed
  let script ← between start.octets
  modify fun source => { source with afterLine := start.afterLine }
  return (script, start.line)

/-- Quoted fragments make a field of their own, unless they are the list of all
arguments and nothing else. -/
def quotedWord (inside word : Word) : Word :=
  match inside with
  | [.parameter ['@'] true] => inside ++ word
  | _ => Word.push [] true (inside ++ word)

mutual

def dollar (inner : Inner) : (fuel : Nat) → Stretch → Reader Fragment
  | 0, stretch => return .text ['$'] stretch.isQuoted
  | fuel + 1, stretch => do
      match ← peekJoined with
      | some '(' =>
          skip
          if ← accept '(' then
            let word ← fragments inner fuel { closing := .arithmetic 0, isQuoted := true }
            return .arithmetic word stretch.isQuoted
          else
            let (script, line) ← bracketedScript inner
            return .substitution script line stretch.isQuoted
      | some '\x7b' =>
          skip
          braced inner fuel stretch
      | some octet =>
          if isNameStart octet then
            return .parameter (← takeWhile isNamePart (← get).octets.length) stretch.isQuoted
          else if octet.isDigit || isSpecial octet then
            skip
            return .parameter [octet] stretch.isQuoted
          else return .text ['$'] stretch.isQuoted
      | none => return .text ['$'] stretch.isQuoted

def braced (inner : Inner) : (fuel : Nat) → Stretch → Reader Fragment
  | 0, _ => return .malformed
  | fuel + 1, stretch => do
      let length := (← get).octets.length
      let body : Stretch := { stretch with closing := .brace, isInBraces := true }
      match ← subject length with
      | .wrong =>
          let _ ← fragments inner fuel body
          return .malformed
      | .size name =>
          let word ← fragments inner fuel body
          return if word.isEmpty then .size name stretch.isQuoted else .malformed
      | .parameter name =>
          if ← accept '\x7d' then return .parameter name stretch.isQuoted
          match ← modifier with
          | none =>
              let _ ← fragments inner fuel body
              return .malformed
          | some (found, emptyIsUnset) =>
              let isQuoted :=
                match found with
                | .withoutStart _ | .withoutEnd _ => false
                | _ => stretch.isQuoted
              let word ← fragments inner fuel { body with isQuoted := isQuoted }
              return .modified name found emptyIsUnset word stretch.isQuoted

/-- Fragments up to the end of their stretch, which is taken too unless it ends a
word. -/
def fragments (inner : Inner) : (fuel : Nat) → Stretch → Reader Word
  | 0, _ => return []
  | fuel + 1, stretch => do
      match ← peek with
      | none =>
          match stretch.closing with
          | .word => return []
          | .quote => unclosed stretch.document.isSome
          | .brace => unclosed (stretch.document.isSome || !stretch.isQuoted)
          | .arithmetic _ => fault "Missing '))'"
      | some octet =>
          let ends :=
            match stretch.closing with
            | .word => endsWord octet
            | .quote => octet == '"'
            | .brace => octet == '\x7d'
            | .arithmetic _ => false
          if ends then
            unless stretch.closing == .word do skip
            return []
          skip
          afterLineEnd octet stretch.document
          if octet == '$' && !stretch.isMark then
            let fragment ← dollar inner fuel stretch
            let rest ← fragments inner fuel stretch
            match fragment with
            | .text octets isQuoted => return rest.push octets isQuoted
            | _ => return fragment :: rest
          else if octet == '\x60' && !stretch.isMark then
            let script ← backquoted stretch.isQuoted ((← get).octets.length + 1)
            inner.whole script
            return .substitution script 1 stretch.isQuoted :: (← fragments inner fuel stretch)
          else if octet == '\\' then
            match ← escape stretch with
            | none => fragments inner fuel stretch
            | some octets => return (← fragments inner fuel stretch).push octets true
          else if octet == '\'' && !stretch.isQuoted then
            let inside ← single stretch.document ((← get).octets.length + 1)
            return (← fragments inner fuel stretch).push inside true
          else if octet == '"' then
            match stretch.closing with
            | .arithmetic _ => return (← fragments inner fuel stretch).push ['"'] true
            | _ =>
                let inside ← fragments inner fuel
                  { stretch with closing := .quote, isQuoted := true }
                return quotedWord inside (← fragments inner fuel stretch)
          else
            match stretch.closing, octet with
            | .arithmetic depth, '(' =>
                let rest ← fragments inner fuel { stretch with closing := .arithmetic (depth + 1) }
                return rest.push ['('] true
            | .arithmetic (depth + 1), ')' =>
                let rest ← fragments inner fuel { stretch with closing := .arithmetic depth }
                return rest.push [')'] true
            | .arithmetic 0, ')' =>
                if ← accept ')' then return []
                else return (← fragments inner fuel stretch).push [')'] true
            | _, _ => return (← fragments inner fuel stretch).push [octet] stretch.isQuoted

end

def document (inner : Inner) (mark : Mark) :
    (fuel : Nat) → (isLineStart : Bool) → Reader Word
  | 0, _ => return []
  | fuel + 1, isLineStart => do
      if isLineStart then
        if ← atMark mark then return []
      let stretch : Stretch := { closing := .word, isQuoted := true, document := some mark }
      let again := document inner mark fuel
      match ← next with
      | none => return []
      | some '\n' => return (← again true).push ['\n'] true
      | some octet =>
          if mark.isLiteral then return (← again false).push [octet] true
          else if octet == '$' then
            match ← dollar inner fuel stretch with
            | .text octets isQuoted => return (← again false).push octets isQuoted
            | fragment => return fragment :: (← again false)
          else if octet == '\x60' then
            let script ← backquoted true ((← get).octets.length + 1)
            inner.whole script
            return .substitution script 1 true :: (← again false)
          else if octet == '\\' then
            match ← escape stretch with
            | none => again false
            | some octets => return (← again false).push octets true
          else return (← again false).push [octet] true

end Read

end ElmAtlas.Shell
