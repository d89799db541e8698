import TreeQuery.Regex.Token

namespace TreeQuery.Regex

open Unicode

variable [Tables]

/-- Flags that change what an expression matches. -/
structure Flags where
  caseInsensitive : Bool
  multiLine : Bool
  dotAll : Bool
  unicode : Bool
  returnLines : Bool

namespace Flags

def standard : Flags := ⟨false, false, false, true, false⟩

def update (flags : Flags) (change : FlagChange) : Flags where
  caseInsensitive := (change.state? .caseInsensitive).getD flags.caseInsensitive
  multiLine := (change.state? .multiLine).getD flags.multiLine
  dotAll := (change.state? .dotAll).getD flags.dotAll
  unicode := (change.state? .unicode).getD flags.unicode
  returnLines := (change.state? .returnLines).getD flags.returnLines

/-- A class closed under case, if case does not count. -/
def close (flags : Flags) (a : CharClass) : CharClass :=
  if !flags.caseInsensitive then a
  else if flags.unicode then a.folded
  else a.union (a.folded.inter .ascii)

def negate (negated : Bool) (a : CharClass) : CharClass :=
  if negated then a.compl else a

def shorthand (flags : Flags) (cls : Shorthand) : CharClass :=
  let a := match cls with
    | .decimal => .property .decimal
    | .space => .property .whiteSpace
    | .word => .property .word
  if flags.unicode then a else a.inter .ascii

def dot (flags : Flags) : CharClass :=
  if flags.dotAll then .property .any
  else if flags.returnLines then .compl (.union (.single '\n') (.single '\r'))
  else .compl (.single '\n')

def lineStart (flags : Flags) : Look :=
  if !flags.multiLine then .textStart
  else if flags.returnLines then .returnLineStart else .lineStart

def lineEnd (flags : Flags) : Look :=
  if !flags.multiLine then .textEnd
  else if flags.returnLines then .returnLineEnd else .lineEnd

/-- Without Unicode, a class with a character outside ASCII is refused. -/
def set? (flags : Flags) (a : CharClass) : Option Regex :=
  if !flags.unicode && a.contains '\u0080' then none else some (.set a)

end Flags

/-- An open group: the flags in force, the finished alternatives and the items of the current one,
latest first. An item that only sets flags is `none`. -/
structure Group where
  flags : Flags
  arms : List Regex
  items : List (Option Regex)

namespace Group

def start (flags : Flags) : Group := ⟨flags, [], []⟩

def push (g : Group) (r : Regex) : Group :=
  { g with items := some r :: g.items }

def arm (g : Group) : Regex :=
  seqAll (g.items.reverse.filterMap id)

def toRegex (g : Group) : Regex :=
  altAll g.arms.reverse g.arm

end Group

/-- An open class: the members read so far and, after an operation, its left operand. -/
structure OpenClass where
  negated : Bool
  left : Option (SetOperation × CharClass)
  members : CharClass

namespace OpenClass

def add (k : OpenClass) (a : CharClass) : OpenClass :=
  { k with members := k.members.union a }

/-- Operations of equal rank associate to the left, and each operand is closed under case on its
own. -/
def operand (flags : Flags) (k : OpenClass) : CharClass :=
  match k.left with
  | none => k.members
  | some (op, left) =>
    let a := flags.close left
    let b := flags.close k.members
    match op with
    | .inter => a.inter b
    | .diff => a.diff b
    | .symmDiff => a.symmDiff b

def close (flags : Flags) (k : OpenClass) : CharClass :=
  Flags.negate k.negated (flags.close (k.operand flags))

end OpenClass

/-- The open groups and classes, innermost first, and the group names in use. -/
structure Reading where
  group : Group
  outer : List Group
  classes : List OpenClass
  names : List (List Char)

namespace Reading

def start : Reading := ⟨.start .standard, [], [], []⟩

def flags (s : Reading) : Flags := s.group.flags

def push (s : Reading) (r : Regex) : Reading :=
  { s with group := s.group.push r }

/-- A token outside classes. -/
def outside? (s : Reading) : Token → Option Reading
  | .literal c => some (s.push (.set (s.flags.close (.single c))))
  | .dot => (s.flags.set? s.flags.dot).map s.push
  | .caret => some (s.push (.look s.flags.lineStart))
  | .dollar => some (s.push (.look s.flags.lineEnd))
  | .textStart => some (s.push (.look .textStart))
  | .textEnd => some (s.push (.look .textEnd))
  | .word edge => some (s.push (.look (.word edge (s.flags.shorthand .word))))
  | .shorthand cls negated =>
    (s.flags.set? (Flags.negate negated (s.flags.shorthand cls))).map s.push
  | .property p negated =>
    if s.flags.unicode then
      some (s.push (.set (Flags.negate negated (s.flags.close (.property p)))))
    else none
  | .groupOpen name change =>
    if name.any (· ∈ s.names) then none
    else some
      { s with
        group := .start (s.flags.update change), outer := s.group :: s.outer,
        names := name.toList ++ s.names }
  | .setFlags change =>
    some { s with group :=
      { s.group with flags := s.flags.update change, items := none :: s.group.items } }
  | .groupClose =>
    match s.outer with
    | g :: outer => some { s with group := g.push s.group.toRegex, outer }
    | [] => none
  | .bar =>
    some { s with group := { s.group with arms := s.group.arm :: s.group.arms, items := [] } }
  | .repetition min max =>
    match s.group.items with
    | some r :: items => some { s with group :=
        { s.group with items := some (.repeated r min max) :: items } }
    | _ => none
  | .classOpen negated literals =>
    some { s with classes := [⟨negated, none, .ofRanges (literals.map fun c => (c, c))⟩] }
  | _ => none

/-- Adds members to the class `k`, which stands inside `ks`. -/
def member (s : Reading) (a : CharClass) (k : OpenClass) (ks : List OpenClass) : Option Reading :=
  some { s with classes := k.add a :: ks }

/-- A token inside the class `k`, which stands inside `ks`. -/
def inside? (s : Reading) (k : OpenClass) (ks : List OpenClass) : Token → Option Reading
  | .literal c => s.member (.single c) k ks
  | .classRange first last => s.member (.range first last) k ks
  | .shorthand cls negated => s.member (Flags.negate negated (s.flags.shorthand cls)) k ks
  | .property p negated =>
    if s.flags.unicode then
      s.member (Flags.negate negated (s.flags.close (.property p))) k ks
    else none
  | .posix cls negated => s.member (Flags.negate negated (s.flags.close cls)) k ks
  | .operation op =>
    some { s with classes := ⟨k.negated, some (op, k.operand s.flags), .empty⟩ :: ks }
  | .classOpen negated literals =>
    some { s with
      classes := ⟨negated, none, .ofRanges (literals.map fun c => (c, c))⟩ :: k :: ks }
  | .classClose =>
    match ks with
    | outer :: ks => some { s with classes := outer.add (k.close s.flags) :: ks }
    | [] => (s.flags.set? (k.close s.flags)).map fun r => { s with classes := [] }.push r
  | _ => none

def next? (s : Reading) (token : Token) : Option Reading :=
  match s.classes with
  | [] => s.outside? token
  | k :: ks => s.inside? k ks token

/-- The expression read, once every group and class is closed. -/
def finish? (s : Reading) : Option Regex :=
  match s.outer, s.classes with
  | [], [] => some s.group.toRegex
  | _, _ => none

end Reading

def ofTokens? (tokens : List Token) : Option Regex :=
  (tokens.foldlM Reading.next? Reading.start).bind Reading.finish?

/-- The expression that a text denotes, if it denotes one. -/
def ofSource? (source : String) : Option Regex :=
  (Token.cut? .start source.toList).bind ofTokens?

end TreeQuery.Regex
