import TreeQuery.Text.Blank

namespace TreeQuery.Unicode

def isAscii (c : Char) : Bool :=
  c.toNat < 0x80

/-- The properties that the shorthands of expressions stand for, and those that go by a name, or by
the name of a property and of its value. -/
inductive Property
  | any
  | decimal
  | whiteSpace
  | word
  | named (name : String)
  | valued (property value : String)
deriving DecidableEq

/-- What the version of Unicode in use says of the characters outside ASCII, and which properties it
knows by name. -/
class Tables where
  /-- The character joins to the one before it. -/
  joins : Char → Bool
  prints : Char → Bool
  alphabetic : Char → Bool
  numeric : Char → Bool
  known : Property → Bool
  holds : Property → Char → Bool
  /-- All characters that are the same if case does not count. -/
  caseVariants : Char → List Char

variable [Tables]

def isAlphabetic (c : Char) : Bool :=
  if isAscii c then c.isAlpha else Tables.alphabetic c

def isAlphanumeric (c : Char) : Bool :=
  if isAscii c then c.isAlphanum else Tables.alphabetic c || Tables.numeric c

/-- Characters that join to the one before them. -/
def isGraphemeExtend (c : Char) : Bool :=
  !isAscii c && Tables.joins c

def isPrintable (c : Char) : Bool :=
  if isAscii c then 0x20 ≤ c.toNat && c.toNat < 0x7F else Tables.prints c

namespace Property

def holds : Property → Char → Bool
  | any, _ => true
  | decimal, c => if isAscii c then c.isDigit else Tables.holds decimal c
  | whiteSpace, c => Text.isWhiteSpace c
  | word, c => if isAscii c then c.isAlphanum || c = '_' else Tables.holds word c
  | p, c => Tables.holds p c

/-- Names are compared in lower case, without spaces, hyphens, underscores and an initial "is". -/
def normalName (cs : List Char) : String :=
  let lower := cs.map Char.toLower
  let bare := if lower.take 2 = ['i', 's'] then lower.drop 2 else lower
  String.ofList (bare.filter fun c => isAscii c && c != ' ' && c != '_' && c != '-')

def known? (p : Property) : Option Property :=
  if Tables.known p then some p else none

def named? (cs : List Char) : Option Property :=
  (named (normalName cs)).known?

def valued? (property value : List Char) : Option Property :=
  (valued (normalName property) (normalName value)).known?

end Property

end TreeQuery.Unicode
