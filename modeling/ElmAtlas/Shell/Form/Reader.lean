import ElmAtlas.Shell.Form
import ElmAtlas.Shell.Word.Reader

/-!
# Reading forms

The readers follow the grammar from the outside in.  Each takes a bound on its
depth.  A keyword counts only where a command may begin or where the grammar asks
for it, so the readers look at tokens one at a time.
-/

namespace ElmAtlas.Shell

namespace Read

def skipBlanks : (fuel : Nat) → Reader Unit
  | 0 => return ()
  | fuel + 1 => do
      match ← peekJoined with
      | some ' ' | some '\t' =>
          skip
          skipBlanks fuel
      | some '#' =>
          modify fun source => { source with octets := source.octets.dropWhile (· != '\n') }
          skipBlanks fuel
      | _ => return ()

/-- The operator that begins with an octet, and the longer one if the octet is
doubled. -/
def operators? : Char → Option (Operator × Option Operator)
  | '&' => some (.background, some .both)
  | '|' => some (.pipe, some .either)
  | ';' => some (.semicolon, some .doubleSemicolon)
  | '(' => some (.opening, none)
  | ')' => some (.closing, none)
  | _ => none

/-- What a redirection sign means, read from behind its first octet. -/
def direction (sign : Char) : Reader Direction := do
  if sign == '>' then
    if ← accept '>' then return .append
    else if ← accept '|' then return .clobber
    else if ← accept '&' then return .toDescriptor
    else return .output
  else if ← accept '<' then return .document (← accept '-')
  else if ← accept '&' then return .fromDescriptor
  else if ← accept '>' then return .both
  else return .input

/-- A word, or a redirection with the digit in front of it. -/
def wordToken (inner : Inner) (isMark : Bool) : Reader Token := do
  let length := (← get).octets.length
  let word ← fragments inner (3 * length + 3) { closing := .word, isMark := isMark }
  match ← peek, word.plain? with
  | some sign, some digits =>
      if (sign == '<' || sign == '>') && digits.length ≤ 1 && digits.all Char.isDigit then
        skip
        let found ← direction sign
        return .redirection (digits.head?.map fun digit => digit.toNat - 48) found
      else return .word word
  | _, _ => return .word word

/-- The line end; reading goes on behind the documents of the line. -/
def lineEnd : Reader Token := do
  skip
  match (← get).afterLine with
  | none => return .operator .newline
  | some (octets, line) =>
      set { (← get) with octets := octets, line := line, afterLine := none }
      return .operator .newline

def token (inner : Inner) (isMark : Bool) : Reader Token := do
  match (← get).returned with
  | some token =>
      modify fun source => { source with returned := none }
      return token
  | none =>
      skipBlanks ((← get).octets.length + 1)
      match ← peekJoined with
      | none => return .finish
      | some '\n' => lineEnd
      | some octet =>
          match operators? octet with
          | none => wordToken inner isMark
          | some (operator, none) =>
              skip
              return .operator operator
          | some (operator, some doubled) =>
              skip
              if ← accept octet then return .operator doubled
              else return .operator operator

def giveBack (token : Token) : Reader Unit :=
  modify fun source => { source with returned := some token }

/-- Puts the octets of an alias in the place of its name, unless the name stands
in them itself. -/
def replaceAlias (name : Octets) : Reader Bool := do
  let source ← get
  let size := source.octets.length
  let isInside := source.replaced.any fun entry => entry.1 == name && entry.2 ≤ size
  match source.aliases.lookup name with
  | none => return false
  | some text =>
      if isInside then return false
      set { source with
        octets := text ++ source.octets
        replaced := (name, size) :: source.replaced }
      return true

def isAlias (found : Token) : Reader Bool :=
  match found with
  | .word word =>
      match word.plain? with
      | some name => replaceAlias name
      | none => return false
  | _ => return false

def tokenBeyondLines (inner : Inner) : (fuel : Nat) → Reader Token
  | 0 => return .finish
  | fuel + 1 => do
      let found ← token inner false
      if found.isOperator .newline then tokenBeyondLines inner fuel else return found

def skipLine (inner : Inner) : (fuel : Nat) → Reader Unit
  | 0 => return ()
  | fuel + 1 => do
      match ← token inner false with
      | .operator .newline | .finish => return ()
      | _ => skipLine inner fuel

/-- More than the octets that are left can become when aliases are replaced. -/
def reserve (source : Source) : Nat :=
  let added := source.aliases.foldl (fun sum entry => sum + entry.2.length) 0
  (source.octets.length + 2) * (added + 1)

def bound : Reader Nat := do
  return reserve (← get)

def unexpected {α : Type} (token : Token) (countsKeywords : Bool) : Reader α :=
  fault (token.shown countsKeywords ++ " unexpected")

def expecting {α : Type} (token : Token) (countsKeywords : Bool) (wanted : String) : Reader α :=
  fault (token.shown countsKeywords ++ " unexpected (expecting " ++ wanted ++ ")")

def expectKeyword (inner : Inner) (keyword : String) (skipsLines : Bool) : Reader Unit := do
  let found ← if skipsLines then tokenBeyondLines inner (← bound) else token inner false
  unless found.keyword? == some keyword do
    expecting found true ("\"" ++ keyword ++ "\"")

def documentStart (inner : Inner) : Reader (Octets × Nat) := do
  let here ← get
  match here.afterLine with
  | some place => return place
  | none =>
      let place ←
        try
          skipLine inner (← bound)
          let there ← get
          pure (there.octets, there.line)
        catch _ => pure ([], here.line)
      set here
      return place

/-- The document that a redirection announces, up to the given mark. -/
def announced (inner : Inner) (mark : Word) (stripsTabs : Bool) : Reader Word := do
  let (octets, line) ← documentStart inner
  let here ← get
  set { here with octets := octets, line := line, afterLine := none }
  let line : Mark :=
    { octets := mark.literal, stripsTabs := stripsTabs, isLiteral := mark.hasQuotes }
  let text ← document inner line (2 * octets.length + 3) true
  let there ← get
  set { here with afterLine := some (there.octets, there.line) }
  return text

def defaultDescriptor : Direction → Nat
  | .output | .clobber | .append | .toDescriptor => 1
  | _ => 0

def redirection (inner : Inner) (descriptor : Option Nat) (direction : Direction) :
    Reader Redirection := do
  let number := descriptor.getD (defaultDescriptor direction)
  match direction with
  | .document stripsTabs =>
      match ← token inner true with
      | .word mark => return ⟨number, direction, ← announced inner mark stripsTabs⟩
      | other => unexpected other false
  | _ =>
      match ← token inner false with
      | .word target => return ⟨number, direction, target⟩
      | other => unexpected other false

def redirections (inner : Inner) : (fuel : Nat) → Reader (List Redirection)
  | 0 => return []
  | fuel + 1 => do
      match ← token inner false with
      | .redirection descriptor direction =>
          let first ← redirection inner descriptor direction
          return first :: (← redirections inner fuel)
      | other =>
          giveBack other
          return []

/-- Words up to the next token of another kind, which is given back. -/
def words (inner : Inner) : (fuel : Nat) → Reader (List Word)
  | 0 => return []
  | fuel + 1 => do
      match ← token inner false with
      | .word word => return word :: (← words inner fuel)
      | other =>
          giveBack other
          return []

/-- The patterns of one branch, up to the closing bracket; the first token has
been read. -/
def patterns (inner : Inner) : (fuel : Nat) → Token → Reader (List Word)
  | 0, _ => return []
  | fuel + 1, first => do
      let word := match first with
        | .word word => word
        | _ => []
      match ← token inner false with
      | .operator .pipe => return word :: (← patterns inner fuel (← token inner false))
      | .operator .closing => return [word]
      | other => expecting other false "\")\""

/-- The parts of a simple command, as far as they go. -/
structure Parts where
  assignments : List (Octets × Word) := []
  words : List Word := []
  redirections : List Redirection := []

/-- Whether aliases count for the next word.  They do where a command begins, and
behind an alias that ends with a blank. -/
def countsAliases (gathered : Parts) : Reader Bool := do
  if (← get).returned.isSome then return false
  let before := (← get).octets.length
  skipBlanks before
  let source ← get
  let isPassed := source.replaced.any fun (name, size) =>
    size < before && source.octets.length ≤ size &&
      ((source.aliases.lookup name).bind List.getLast?).any fun octet =>
        octet == ' ' || octet == '\t'
  return gathered.words.isEmpty || isPassed

/-- Gathers the parts of a simple command.  Assignments stand before the first
word only.  The flag says that an opening bracket follows a single word. -/
def parts (inner : Inner) : (fuel : Nat) → Parts → Reader (Parts × Bool)
  | 0, gathered => return (gathered, false)
  | fuel + 1, gathered => do
      let countsAliases ← countsAliases gathered
      let found ← token inner false
      let isReplaced ← if countsAliases then isAlias found else pure false
      if isReplaced then return ← parts inner fuel gathered
      match found with
      | .word word =>
          match gathered.words, word.assignment? with
          | [], some assignment =>
              parts inner fuel
                { gathered with assignments := gathered.assignments ++ [assignment] }
          | found, _ => parts inner fuel { gathered with words := found ++ [word] }
      | .redirection descriptor direction =>
          let found ← redirection inner descriptor direction
          parts inner fuel { gathered with redirections := gathered.redirections ++ [found] }
      | .operator .opening =>
          if gathered.words.length == 1 && gathered.assignments.isEmpty &&
              gathered.redirections.isEmpty then
            return (gathered, true)
          else
            giveBack (.operator .opening)
            return (gathered, false)
      | other =>
          giveBack other
          return (gathered, false)

def allArguments : Word :=
  [.parameter ['@'] true]

/-- How lists of commands end: at the end of the line, or at a token that closes
what they stand in.  Inside brackets and branches a list may be empty. -/
inductive Extent where
  | line
  | compound
  | optional
  deriving DecidableEq, Repr

mutual

/-- The readers for scripts inside words, bounded by `fuel`. -/
def inner : (fuel : Nat) → Inner
  | 0 => ⟨return (), fun _ => return ()⟩
  | fuel + 1 => {
      bracketed := do
        let _ ← list fuel .optional
        let found ← token (inner fuel) false
        unless found.isOperator .closing do
          expecting found true "\")\""
      whole := fun script => do
        let here ← get
        set { here with octets := script, line := 1, afterLine := none, returned := none }
        let _ ← list fuel .optional
        set here }

def list : (fuel : Nat) → Extent → Reader Form
  | 0, _ => return .nothing
  | fuel + 1, extent => do
      let readers := inner fuel
      let found ← if extent == .line then token readers false
        else tokenBeyondLines readers (← bound)
      match found with
      | .operator .newline => return .nothing
      | .finish =>
          giveBack .finish
          return .nothing
      | _ =>
          giveBack found
          if extent == .optional && found.endsList then return .nothing
          let first ← alternatives fuel
          continued fuel extent first

def continued : (fuel : Nat) → Extent → Form → Reader Form
  | 0, _, first => return first
  | fuel + 1, extent, first => do
      let readers := inner fuel
      let rest := if extent == .line then .line else Extent.optional
      let separator ← token readers false
      match separator with
      | .finish =>
          giveBack .finish
          return first
      | .operator .background => return (Form.background first).andThen (← list fuel rest)
      | .operator .semicolon => return first.andThen (← list fuel rest)
      | .operator .newline =>
          if extent == .line then return first
          else return first.andThen (← list fuel rest)
      | other =>
          if extent == .line then unexpected other true
          giveBack other
          return first

/-- Pipelines joined by the operators that look at the last status. -/
def alternatives : (fuel : Nat) → Reader Form
  | 0 => return .nothing
  | fuel + 1 => do
      let first ← pipeline fuel
      joined fuel first

def joined : (fuel : Nat) → Form → Reader Form
  | 0, first => return first
  | fuel + 1, first => do
      let readers := inner fuel
      match ← token readers false with
      | .operator .both =>
          giveBack (← tokenBeyondLines readers (← bound))
          joined fuel (.both first (← pipeline fuel))
      | .operator .either =>
          giveBack (← tokenBeyondLines readers (← bound))
          joined fuel (.either first (← pipeline fuel))
      | other =>
          giveBack other
          return first

def pipeline : (fuel : Nat) → Reader Form
  | 0 => return .nothing
  | fuel + 1 => do
      let found ← token (inner fuel) false
      let isNegated := found.keyword? == some "!"
      unless isNegated do giveBack found
      let first ← command fuel
      let others ← piped fuel
      let form := if others.isEmpty then first else .pipeline (first :: others)
      return if isNegated then .negation form else form

def piped : (fuel : Nat) → Reader (List Form)
  | 0 => return []
  | fuel + 1 => do
      let readers := inner fuel
      let found ← token readers false
      if found.isOperator .pipe then
        giveBack (← tokenBeyondLines readers (← bound))
        let form ← command fuel
        return form :: (← piped fuel)
      else
        giveBack found
        return []

def command : (fuel : Nat) → Reader Form
  | 0 => return .nothing
  | fuel + 1 => do
      let readers := inner fuel
      let found ← token readers false
      let line := (← get).line
      let redirected (form : Form) : Reader Form := do
        return form.redirectedBy line (← redirections readers (← bound))
      match found with
      | .operator .opening =>
          let body ← list fuel .compound
          let closing ← token readers false
          unless closing.isOperator .closing do
            expecting closing true "\")\""
          return .subshell line body (← redirections readers (← bound))
      | .redirection _ _ =>
          giveBack found
          simple fuel line
      | .word _ =>
          match found.keyword? with
          | none =>
              if ← isAlias found then command fuel
              else
                giveBack found
                simple fuel line
          | some "\x7b" =>
              let body ← list fuel .compound
              expectKeyword readers "\x7d" false
              redirected body
          | some "if" => redirected (← branch fuel)
          | some "while" => redirected (← loop fuel true)
          | some "until" => redirected (← loop fuel false)
          | some "for" => redirected (← forEach fuel line)
          | some "case" => redirected (← choice fuel line)
          | some _ => unexpected found true
      | _ => unexpected found true

def simple : (fuel : Nat) → (line : Nat) → Reader Form
  | 0, _ => return .nothing
  | fuel + 1, line => do
      let readers := inner fuel
      let (found, isDefinition) ← parts readers (← bound) {}
      if isDefinition then
        let closing ← token readers false
        unless closing.isOperator .closing do
          expecting closing false "\")\""
        match (found.words.headD []).plain? with
        | some name =>
            if !isName name || specialCommands.contains (String.ofList name) then
              fault "Bad function name"
            giveBack (← tokenBeyondLines readers (← bound))
            return .definition name (← command fuel)
        | none => fault "Bad function name"
      else
        return .simple line found.assignments found.words found.redirections

def branch : (fuel : Nat) → Reader Form
  | 0 => return .nothing
  | fuel + 1 => do
      let readers := inner fuel
      let condition ← list fuel .compound
      expectKeyword readers "then" false
      let positive ← list fuel .compound
      let found ← token readers false
      match found.keyword? with
      | some "elif" => return .branch condition positive (← branch fuel)
      | some "else" =>
          let negative ← list fuel .compound
          expectKeyword readers "fi" false
          return .branch condition positive negative
      | some "fi" => return .branch condition positive .nothing
      | _ => expecting found true "\"fi\""

/-- A loop on a condition, read from behind its first word. -/
def loop : (fuel : Nat) → (expected : Bool) → Reader Form
  | 0, _ => return .nothing
  | fuel + 1, expected => do
      let readers := inner fuel
      let condition ← list fuel .compound
      expectKeyword readers "do" false
      let body ← list fuel .compound
      expectKeyword readers "done" false
      return .loop expected condition body

/-- A loop over words; without words it goes over the arguments. -/
def forEach : (fuel : Nat) → (line : Nat) → Reader Form
  | 0, _ => return .nothing
  | fuel + 1, line => do
      let readers := inner fuel
      let name ←
        match ← token readers false with
        | .word word => pure (word.plain?.getD [])
        | _ => pure []
      unless isName name do
        fault "Bad for loop variable"
      let found ← tokenBeyondLines readers (← bound)
      let items ←
        if found.keyword? == some "in" then
          let items ← words readers (← bound)
          let closing ← token readers false
          unless closing.isOperator .newline || closing.isOperator .semicolon do
            unexpected closing false
          pure items
        else
          unless found.isOperator .semicolon do giveBack found
          pure [allArguments]
      expectKeyword readers "do" true
      let body ← list fuel .compound
      expectKeyword readers "done" false
      return .forEach line name items body

def choice : (fuel : Nat) → (line : Nat) → Reader Form
  | 0, _ => return .nothing
  | fuel + 1, line => do
      let readers := inner fuel
      match ← token readers false with
      | .word subject =>
          expectKeyword readers "in" true
          return .choice line subject (← branches fuel)
      | other => expecting other false "word"

def branches : (fuel : Nat) → Reader (List (List Word × Form))
  | 0 => return []
  | fuel + 1 => do
      let readers := inner fuel
      let found ← tokenBeyondLines readers (← bound)
      if found.keyword? == some "esac" then return []
      let first ← if found.isOperator .opening then token readers false else pure found
      let listed ← patterns readers (← bound) first
      let body ← list fuel .optional
      let closing ← tokenBeyondLines readers (← bound)
      if closing.keyword? == some "esac" then return [(listed, body)]
      unless closing.isOperator .doubleSemicolon do
        expecting closing true "\";;\""
      return (listed, body) :: (← branches fuel)

end

def depthFor (source : Source) : Nat :=
  12 * reserve source + 40

end Read

/-- What reading on in a script finds. -/
inductive Reading where
  | finished
  | form (form : Form) (rest : Source)
  | broken (fault : SyntaxFault)

def readLine (source : Source) : Reading :=
  let action : Reader (Option Form) := do
    let readers := Read.inner (Read.depthFor source)
    match ← Read.token readers false with
    | .finish => return none
    | .operator .newline => return some .nothing
    | found =>
        Read.giveBack found
        return some (← Read.list (Read.depthFor source) .line)
  match action source with
  | .ok none _ => .finished
  | .ok (some form) rest => .form form rest
  | .error fault _ => .broken fault

def readWhole (script : Octets) (line : Nat) (aliases : List (Octets × Octets)) :
    Except SyntaxFault Form :=
  let source : Source := { octets := script, line := line, aliases := aliases }
  match Read.list (Read.depthFor source) .optional source with
  | .ok form _ => .ok form
  | .error fault _ => .error fault

def readText (octets : Octets) : Except SyntaxFault Word :=
  let source : Source := { octets := octets, line := 1 }
  let reader := Read.document (Read.inner (Read.depthFor source)) { octets := ['\x00'] }
    (2 * octets.length + 3) false
  match reader source with
  | .ok text _ => .ok text
  | .error fault _ => .error fault

end ElmAtlas.Shell
