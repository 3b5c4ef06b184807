import ElmAtlas.Text.Octets

/-!
# Patterns

A pattern describes a set of texts.  `isMatch` decides membership; `cutStart` and
`cutEnd` take a part that matches away from one end.
-/

namespace ElmAtlas.Shell

/-- An octet that knows whether it is quoted; quoted octets stand for
themselves. -/
abbrev Marked := Char × Bool

inductive PatternMember where
  | range (low high : Char)
  | kind (name : String)
  deriving DecidableEq, Repr

inductive PatternItem where
  | octet (octet : Char)
  | anyOne
  | anyMany
  | oneOf (isNegated : Bool) (members : List PatternMember)
  deriving DecidableEq, Repr

abbrev Pattern := List PatternItem

namespace PatternMember

def kinds : List (String × (Char → Bool)) :=
  let isPunctuation (octet : Char) : Bool :=
    '!' ≤ octet && octet ≤ '~' && !octet.isAlphanum
  let isSpace (octet : Char) : Bool :=
    octet == ' ' || ('\t' ≤ octet && octet ≤ '\r')
  [("alnum", Char.isAlphanum), ("alpha", Char.isAlpha),
    ("blank", fun octet => octet == ' ' || octet == '\t'),
    ("cntrl", fun octet => octet < ' ' || octet == '\x7f'), ("digit", Char.isDigit),
    ("graph", fun octet => '!' ≤ octet && octet ≤ '~'), ("lower", Char.isLower),
    ("print", fun octet => ' ' ≤ octet && octet ≤ '~'), ("punct", isPunctuation),
    ("space", isSpace), ("upper", Char.isUpper),
    ("xdigit", fun octet => octet.isDigit || ('a' ≤ octet.toLower && octet.toLower ≤ 'f'))]

def holds (octet : Char) : PatternMember → Bool
  | range low high => low ≤ octet && octet ≤ high
  | kind name => ((kinds.lookup name).map (· octet)).getD false

end PatternMember

namespace Pattern

/-- The named kind behind an opening bracket, up to the bracket that closes it. -/
def kind? (marked : List Marked) : Option (String × List Marked) :=
  match marked with
  | (':', false) :: rest =>
      let name := String.ofList ((rest.takeWhile fun entry => entry.1.isAlpha).map Prod.fst)
      match rest.dropWhile fun entry => entry.1.isAlpha with
      | (':', false) :: (']', false) :: after =>
          if (PatternMember.kinds.lookup name).isSome then some (name, after) else none
      | _ => none
  | _ => none

def unescaped : List Marked → List Marked
  | ('\\', false) :: (octet, _) :: rest => (octet, true) :: rest
  | marked => marked

/-- The members of a bracket expression up to its closing bracket.  `fuel` bounds
the octets. -/
def members : (fuel : Nat) → (isFirst : Bool) → List Marked →
    Option (List PatternMember × List Marked)
  | 0, _, _ => none
  | fuel + 1, isFirst, marked =>
      match marked with
      | [] => none
      | (']', false) :: after =>
          if isFirst then single fuel (']', false) after else some ([], after)
      | ('[', false) :: rest =>
          match kind? rest with
          | some (name, after) =>
              (members fuel false after).map fun (more, behind) => (.kind name :: more, behind)
          | none => single fuel ('[', false) rest
      | _ =>
          match unescaped marked with
          | entry :: rest => single fuel entry rest
          | [] => none
where
  /-- A range, or an octet by itself. -/
  single (fuel : Nat) (entry : Marked) (rest : List Marked) :
      Option (List PatternMember × List Marked) :=
    match rest with
    | ('-', false) :: after =>
        if after.head? == some (']', false) || after.isEmpty then
          (members fuel false rest).map fun (more, behind) =>
            (.range entry.1 entry.1 :: more, behind)
        else
          match unescaped after with
          | high :: next =>
              (members fuel false next).map fun (more, behind) =>
                (.range entry.1 high.1 :: more, behind)
          | [] => none
    | _ =>
        (members fuel false rest).map fun (more, behind) =>
          (.range entry.1 entry.1 :: more, behind)

/-- Reads a pattern.  A bracket that is never closed stands for itself.  `fuel`
bounds the octets. -/
def read : (fuel : Nat) → List Marked → Pattern
  | 0, _ => []
  | _ + 1, [] => []
  | fuel + 1, (octet, isQuoted) :: rest =>
      if isQuoted then .octet octet :: read fuel rest
      else if octet == '*' then .anyMany :: read fuel rest
      else if octet == '?' then .anyOne :: read fuel rest
      else if octet == '\\' then
        match rest with
        | (escaped, _) :: after => .octet escaped :: read fuel after
        | [] => [.octet octet]
      else if octet == '[' then
        let isNegated := rest.head? == some ('!', false)
        match members (rest.length + 1) true (if isNegated then rest.tail else rest) with
        | some (found, after) => .oneOf isNegated found :: read fuel after
        | none => .octet octet :: read fuel rest
      else .octet octet :: read fuel rest

def ofMarked (marked : List Marked) : Pattern :=
  read marked.length marked

def isOpen (pattern : Pattern) : Bool :=
  pattern.any fun item =>
    match item with
    | .octet _ => false
    | _ => true

def isMatch : Pattern → Octets → Bool
  | [], text => text.isEmpty
  | .anyMany :: items, text =>
      isMatch items text ||
        match text with
        | [] => false
        | _ :: rest => isMatch (.anyMany :: items) rest
  | _ :: _, [] => false
  | .octet expected :: items, octet :: rest => octet == expected && isMatch items rest
  | .anyOne :: items, _ :: rest => isMatch items rest
  | .oneOf isNegated members :: items, octet :: rest =>
      members.any (·.holds octet) != isNegated && isMatch items rest
termination_by items text => items.length + text.length

def cutStart (pattern : Pattern) (longest : Bool) (text : Octets) : Octets :=
  let sizes := List.range (text.length + 1)
  let ordered := if longest then sizes.reverse else sizes
  match ordered.find? fun size => pattern.isMatch (text.take size) with
  | some size => text.drop size
  | none => text

/-- The text before the shortest or longest end that matches; none when no end
does. -/
def beforeEnd? (pattern : Pattern) (longest : Bool) (text : Octets) : Option Octets :=
  let sizes := List.range (text.length + 1)
  let ordered := if longest then sizes else sizes.reverse
  (ordered.find? fun size => pattern.isMatch (text.drop size)).map text.take

end Pattern

end ElmAtlas.Shell
