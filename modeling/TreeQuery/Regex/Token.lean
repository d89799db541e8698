import TreeQuery.Regex.Basic

namespace TreeQuery.Regex

open Unicode

variable [Tables]

inductive Flag
  | caseInsensitive
  | multiLine
  | dotAll
  | swapGreed
  | unicode
  | returnLines
  | ignoreSpace
deriving DecidableEq

def Flag.letters : List (Char × Flag) :=
  [('i', .caseInsensitive), ('m', .multiLine), ('s', .dotAll), ('U', .swapGreed),
   ('u', .unicode), ('R', .returnLines), ('x', .ignoreSpace)]

/-- The flags switched on and those switched off. -/
structure FlagChange where
  on : List Flag
  off : List Flag

/-- The new state of a flag, if the change mentions it. -/
def FlagChange.state? (change : FlagChange) (flag : Flag) : Option Bool :=
  if flag ∈ change.on then some true else if flag ∈ change.off then some false else none

/-- The classes that a letter after a backslash stands for. -/
inductive Shorthand
  | decimal
  | space
  | word
deriving DecidableEq

inductive SetOperation
  | inter
  | diff
  | symmDiff
deriving DecidableEq

inductive Token
  | literal (c : Char)
  | dot
  | caret
  | dollar
  | textStart
  | textEnd
  | word (edge : WordEdge)
  | shorthand (cls : Shorthand) (negated : Bool)
  | property (p : Property) (negated : Bool)
  | groupOpen (name : Option (List Char)) (change : FlagChange)
  | setFlags (change : FlagChange)
  | groupClose
  | bar
  | repetition (min : Nat) (max : Option Nat)
  /-- Hyphens and a closing bracket directly after the opening one stand for themselves. -/
  | classOpen (negated : Bool) (literals : List Char)
  | classRange (first last : Char)
  | posix (cls : CharClass) (negated : Bool)
  | operation (op : SetOperation)
  | classClose

namespace Token

/-- The longest run of characters with `p`, and what follows it. If `spaced`, white space and
comments are passed over on the way. -/
def gather (p : Char → Bool) (spaced comment : Bool) : List Char → List Char × List Char
  | [] => ([], [])
  | c :: cs =>
    if comment then gather p spaced (c != '\n') cs
    else if spaced && Text.isWhiteSpace c then gather p spaced false cs
    else if spaced && c = '#' then gather p spaced true cs
    else if p c then
      let (run, rest) := gather p spaced false cs
      (c :: run, rest)
    else ([], c :: cs)

def skip (spaced : Bool) (cs : List Char) : List Char :=
  (gather (fun _ => false) spaced false cs).2

def isHexDigit (c : Char) : Bool :=
  c.isDigit || ('a' ≤ c && c ≤ 'f') || ('A' ≤ c && c ≤ 'F')

def hexValue (c : Char) : Nat :=
  if c.isDigit then c.toNat - '0'.toNat else c.toLower.toNat - 'a'.toNat + 10

/-- The character with the code point written in hexadecimal. -/
def hexChar? (digits : List Char) : Option Char :=
  let n := digits.foldl (fun n c => 16 * n + hexValue c) 0
  if digits.isEmpty || !digits.all isHexDigit || !n.isValidChar then none else some (Char.ofNat n)

/-- Exactly `n` hexadecimal digits. -/
def hexDigits? (spaced : Bool) : Nat → List Char → Option (List Char × List Char)
  | 0, cs => some ([], cs)
  | n + 1, cs =>
    match skip spaced cs with
    | c :: cs =>
      if isHexDigit c then
        (hexDigits? spaced n cs).map fun (digits, rest) => (c :: digits, rest)
      else none
    | [] => none

def hex? (spaced : Bool) (digits : Nat) (cs : List Char) : Option (Token × List Char) :=
  match skip spaced cs with
  | '{' :: cs =>
    match gather (· != '}') spaced false cs with
    | (inside, _ :: rest) => (hexChar? inside).map fun c => (literal c, rest)
    | _ => none
  | cs =>
    (hexDigits? spaced digits cs).bind fun (ds, rest) =>
      (hexChar? ds).map fun c => (literal c, rest)

/-- A property's name, or a name and a value with an equals sign, a colon or "!=" between them;
the last negates. -/
def propertyNamed? (name : List Char) : Option (Property × Bool) :=
  match name.span (fun c => c != ':' && c != '=') with
  | (before, ':' :: value) => (Property.valued? before value).map (·, false)
  | (before, _ :: value) =>
    if before.getLast? = some '!' then (Property.valued? before.dropLast value).map (·, true)
    else (Property.valued? before value).map (·, false)
  | (name, []) => (Property.named? name).map (·, false)

def property? (spaced negated : Bool) (cs : List Char) : Option (Token × List Char) :=
  match skip spaced cs with
  | '{' :: cs =>
    match gather (· != '}') spaced false cs with
    | (inside, _ :: rest) =>
      (propertyNamed? inside).map fun (p, unequal) => (property p (negated != unequal), rest)
    | _ => none
  | c :: rest => (Property.named? [c]).map fun p => (property p negated, rest)
  | [] => none

def edgeNames : List (String × WordEdge) :=
  [("start", .start), ("end", .stop), ("start-half", .startHalf), ("end-half", .stopHalf)]

/-- After the escape for a word boundary, braces that begin with a letter or a hyphen name a kind of
boundary; any others are left to be read as a repetition. -/
def wordBoundary? (spaced : Bool) (cs : List Char) : Option (Token × List Char) :=
  match cs with
  | '{' :: inside =>
    match skip spaced inside with
    | [] => none
    | c :: _ =>
      if c.isAlpha || c = '-' then
        match gather (fun c => c.isAlpha || c = '-') spaced false inside with
        | (name, '}' :: rest) => (edgeNames.lookup (String.ofList name)).map (word ·, rest)
        | _ => none
      else some (word .boundary, cs)
  | _ => some (word .boundary, cs)

/-- What follows a backslash. ASCII characters other than letters, digits and angle brackets stand
for themselves. -/
def escape? (spaced : Bool) : List Char → Option (Token × List Char)
  | [] => none
  | 'x' :: cs => hex? spaced 2 cs
  | 'u' :: cs => hex? spaced 4 cs
  | 'U' :: cs => hex? spaced 8 cs
  | 'p' :: cs => property? spaced false cs
  | 'P' :: cs => property? spaced true cs
  | 'b' :: cs => wordBoundary? spaced cs
  | c :: cs =>
    (match c with
      | 'd' => some (shorthand .decimal false)
      | 'D' => some (shorthand .decimal true)
      | 's' => some (shorthand .space false)
      | 'S' => some (shorthand .space true)
      | 'w' => some (shorthand .word false)
      | 'W' => some (shorthand .word true)
      | 'B' => some (word .inside)
      | '<' => some (word .start)
      | '>' => some (word .stop)
      | 'A' => some textStart
      | 'z' => some textEnd
      | 'a' => some (literal '\x07')
      | 'f' => some (literal '\x0c')
      | 't' => some (literal '\t')
      | 'n' => some (literal '\n')
      | 'r' => some (literal '\r')
      | 'v' => some (literal '\x0b')
      | c => if isAscii c && !c.isAlphanum then some (literal c) else none).map (·, cs)

/-- A decimal number below 2^32. -/
def number? (digits : List Char) : Option Nat :=
  let n := Nat.ofDigitChars 10 digits 0
  if digits.isEmpty || n ≥ UInt32.size then none else some n

def decimal (spaced : Bool) (cs : List Char) : List Char × List Char :=
  let (digits, rest) := gather Char.isDigit spaced false (cs.dropWhile Text.isWhiteSpace)
  (digits, rest.dropWhile Text.isWhiteSpace)

/-- A question mark that makes a repetition lazy. -/
def dropLazy : List Char → List Char
  | '?' :: cs => cs
  | cs => cs

/-- The bounds of a repetition, after its opening brace. -/
def bounds? (spaced : Bool) (cs : List Char) : Option (Nat × Option Nat × List Char) :=
  let (least, cs) := decimal spaced (skip spaced cs)
  match cs with
  | '}' :: rest => (number? least).map fun n => (n, some n, rest)
  | ',' :: cs =>
    match skip spaced cs with
    | '}' :: rest => (number? least).map fun n => (n, none, rest)
    | cs =>
      match decimal spaced cs with
      | (most, '}' :: rest) =>
        (number? least).bind fun m => (number? most).bind fun n =>
          if m ≤ n then some (m, some n, rest) else none
      | _ => none
  | _ => none

def isNameChar (first : Bool) (c : Char) : Bool :=
  if first then c = '_' || isAlphabetic c
  else c = '_' || c = '.' || c = '[' || c = ']' || isAlphanumeric c

def isName : List Char → Bool
  | [] => false
  | c :: cs => isNameChar true c && cs.all (isNameChar false)

/-- The letters of a flag change; those after the hyphen are switched off. -/
def flagChange? (letters : List Char) : Option FlagChange :=
  let (on, off) := letters.span (· != '-')
  let flags? (ls : List Char) : Option (List Flag) := ls.mapM fun c => Flag.letters.lookup c
  if letters.eraseDups.length != letters.length || off = ['-'] then none
  else (flags? on).bind fun on => (flags? (off.drop 1)).map fun off => ⟨on, off⟩

def named? (cs : List Char) : Option (Token × List Char) :=
  match cs.span (· != '>') with
  | (name, _ :: rest) => if isName name then some (groupOpen (some name) ⟨[], []⟩, rest) else none
  | _ => none

/-- What follows an opening parenthesis. Look-around is refused. -/
def group? (spaced : Bool) (cs : List Char) : Option (Token × List Char) :=
  match skip spaced cs with
  | '?' :: 'P' :: '<' :: cs => named? cs
  | '?' :: '<' :: cs => named? cs
  | '?' :: cs =>
    match cs.span (fun c => c != ':' && c != ')') with
    | (letters, ':' :: rest) =>
      (flagChange? letters).map fun change => (groupOpen none change, rest)
    | (letters, _ :: rest) =>
      if letters.isEmpty then none
      else (flagChange? letters).map fun change => (setFlags change, rest)
    | _ => none
  | cs => some (groupOpen none ⟨[], []⟩, cs)

/-- What follows the opening bracket of a class. -/
def classOpen? (spaced : Bool) (cs : List Char) : Option (Token × List Char) :=
  let (negated, cs) := match skip spaced cs with
    | '^' :: cs => (true, skip spaced cs)
    | cs => (false, cs)
  match gather (· = '-') spaced false cs with
  | ([], ']' :: rest) => some (classOpen negated [']'], rest)
  | (_, []) => none
  | (hyphens, rest) => some (classOpen negated hyphens, rest)

/-- A class named between colons, after the first of them. -/
def posix? (cs : List Char) : Option (Token × List Char) :=
  let (negated, cs) := match cs with
    | '^' :: cs => (true, cs)
    | cs => (false, cs)
  match cs.span (· != ':') with
  | (name, ':' :: ']' :: rest) =>
    (CharClass.posix.lookup (String.ofList name)).map fun cls => (posix cls negated, rest)
  | _ => none

def classPrimitive? (spaced : Bool) : List Char → Option (Token × List Char)
  | [] => none
  | '\\' :: cs => escape? spaced cs
  | c :: cs => some (literal c, cs)

/-- One member of a class. A hyphen between two members makes a range, unless a bracket or another
hyphen follows it. -/
def member? (spaced : Bool) (cs : List Char) : Option (Token × List Char) :=
  (classPrimitive? spaced cs).bind fun (first, rest) =>
    match skip spaced rest with
    | '-' :: after =>
      match skip spaced after with
      | [] => none
      | next =>
        if next.head? = some ']' || next.head? = some '-' then some (first, '-' :: after)
        else (classPrimitive? spaced next).bind fun (last, rest) =>
          match first, last with
          | literal a, literal b => if a ≤ b then some (classRange a b, rest) else none
          | _, _ => none
    | rest => some (first, rest)

/-- Whether white space and comments are ignored, the same for each enclosing group, and the number
of open classes. -/
structure Mode where
  spaced : Bool
  outer : List Bool
  classes : Nat

def Mode.start : Mode := ⟨false, [], 0⟩

/-- The mode after a token; `none` for a closing parenthesis that closes nothing. -/
def Mode.next? (m : Mode) : Token → Option Mode
  | groupOpen _ change =>
    some { m with
      spaced := (change.state? .ignoreSpace).getD m.spaced, outer := m.spaced :: m.outer }
  | setFlags change => some { m with spaced := (change.state? .ignoreSpace).getD m.spaced }
  | groupClose =>
    match m.outer with
    | spaced :: outer => some { m with spaced, outer }
    | [] => none
  | classOpen _ _ => some { m with classes := m.classes + 1 }
  | classClose => some { m with classes := m.classes - 1 }
  | _ => some m

/-- The token at the head of a text outside classes. -/
def outside? (spaced : Bool) : List Char → Option (Token × List Char)
  | [] => none
  | '(' :: cs => group? spaced cs
  | ')' :: cs => some (groupClose, cs)
  | '|' :: cs => some (bar, cs)
  | '[' :: cs => classOpen? spaced cs
  | '?' :: cs => some (repetition 0 (some 1), dropLazy cs)
  | '*' :: cs => some (repetition 0 none, dropLazy cs)
  | '+' :: cs => some (repetition 1 none, dropLazy cs)
  | '{' :: cs =>
    (bounds? spaced cs).map fun (min, max, rest) =>
      (repetition min max, dropLazy (skip spaced rest))
  | '\\' :: cs => escape? spaced cs
  | '.' :: cs => some (dot, cs)
  | '^' :: cs => some (caret, cs)
  | '$' :: cs => some (dollar, cs)
  | c :: cs => some (literal c, cs)

/-- The token at the head of a text inside a class. -/
def inside? (spaced : Bool) : List Char → Option (Token × List Char)
  | [] => none
  | '[' :: ':' :: cs => posix? cs <|> classOpen? spaced (':' :: cs)
  | '[' :: cs => classOpen? spaced cs
  | ']' :: cs => some (classClose, cs)
  | '&' :: '&' :: cs => some (operation .inter, cs)
  | '-' :: '-' :: cs => some (operation .diff, cs)
  | '~' :: '~' :: cs => some (operation .symmDiff, cs)
  | cs => member? spaced cs

/-- Cuts a text into tokens. -/
def cut? (m : Mode) (cs : List Char) : Option (List Token) :=
  match skip m.spaced cs with
  | [] => some []
  | visible =>
    (if m.classes = 0 then outside? m.spaced visible else inside? m.spaced visible).bind
      fun (token, rest) =>
        if rest.length < cs.length then
          (m.next? token).bind fun m => (cut? m rest).map (token :: ·)
        else none
termination_by cs.length

end Token

end TreeQuery.Regex
