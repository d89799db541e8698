import TreeQuery.Category.Basic

namespace TreeQuery.Category

def isNameChar (c : Char) : Bool :=
  c.isAlphanum || c = ',' || c = '.' || c = ':' || c = ';' || c = '_' || c = '-'

def isFeatureChar (c : Char) : Bool :=
  c.isAlphanum || c = '_' || c = '-'

inductive Token
  | atom (name : String) (features : List String)
  | slash (s : Slash)
  | openParen
  | closeParen

namespace Token

/-- A feature in brackets at the head of a text. -/
def feature? : List Char → Option (String × List Char)
  | '[' :: cs =>
    match cs.takeWhile isFeatureChar, cs.dropWhile isFeatureChar with
    | [], _ => none
    | name, ']' :: rest => some (String.ofList name, rest)
    | _, _ => none
  | _ => none

theorem length_of_feature? {cs rest : List Char} {name : String}
    (h : feature? cs = some (name, rest)) : rest.length < cs.length := by
  unfold feature? at h
  split at h
  · rename_i cs
    split at h
    · cases h
    · rename_i hd _
      cases h
      have := (List.dropWhile_suffix isFeatureChar (l := cs)).length_le
      simp only [hd, List.length_cons] at this ⊢
      omega
    · cases h
  · cases h

/-- The features that follow a name directly. -/
def features (cs : List Char) : List String × List Char :=
  match _h : feature? cs with
  | some (name, rest) =>
    let (names, rest) := features rest
    (name :: names, rest)
  | none => ([], cs)
termination_by cs.length
decreasing_by exact length_of_feature? _h

def next? : List Char → Option (Token × List Char)
  | [] => none
  | '(' :: cs => some (openParen, cs)
  | ')' :: cs => some (closeParen, cs)
  | c :: cs =>
    match Slash.ofSymbol? c with
    | some s => some (slash s, cs)
    | none =>
      match (c :: cs).takeWhile isNameChar with
      | [] => none
      | name =>
        let (fs, rest) := features ((c :: cs).dropWhile isNameChar)
        some (atom (String.ofList name) fs, rest)

def cut? (cs : List Char) : Option (List Token) :=
  if cs.isEmpty then some []
  else (next? cs).bind fun (token, rest) =>
    if rest.length < cs.length then (cut? rest).map (token :: ·) else none
termination_by cs.length

end Token

/-- What has been read between an open parenthesis and here. -/
inductive Chain
  | start
  | complete (c : Category)
  | awaiting (result : Category) (slash : Slash)

/-- An operand starts a chain or is the argument of the slash before it. -/
def Chain.operand? (c : Category) : Chain → Option Chain
  | start => some (complete c)
  | awaiting result slash => some (complete (functor result slash c))
  | complete _ => none

/-- The current chain and those of the enclosing parentheses, innermost first. -/
structure Reading where
  chain : Chain
  outer : List Chain

namespace Reading

def start : Reading := ⟨.start, []⟩

def next? (s : Reading) : Token → Option Reading
  | .atom name features =>
    (s.chain.operand? (atom name features)).map fun chain => { s with chain }
  | .slash slash =>
    match s.chain with
    | .complete c => some { s with chain := .awaiting c slash }
    | _ => none
  | .openParen =>
    match s.chain with
    | .complete _ => none
    | chain => some ⟨.start, chain :: s.outer⟩
  | .closeParen =>
    match s.chain, s.outer with
    | .complete c, chain :: outer => (chain.operand? c).map fun chain => ⟨chain, outer⟩
    | _, _ => none

def finish? (s : Reading) : Option Category :=
  match s.chain, s.outer with
  | .complete c, [] => some c
  | _, _ => none

end Reading

def ofTokens? (tokens : List Token) : Option Category :=
  (tokens.foldlM Reading.next? Reading.start).bind Reading.finish?

def ofText? (cs : List Char) : Option Category :=
  (Token.cut? cs).bind ofTokens?

/-- The text that is no category. -/
structure Malformed where
  input : String
deriving DecidableEq

def parse (input : String) : Except Malformed Category :=
  match ofText? input.toList with
  | some c => .ok c
  | none => .error ⟨input⟩

end TreeQuery.Category
