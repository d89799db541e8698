import TreeQuery.Query.Token

namespace TreeQuery.Query

inductive Phrase
  | anchor (a : Literal)
  /-- A node in braces. -/
  | group (head : Phrase) (constraints : List Phrase) (capture : Option String)
  | relation (symbol : String) (operand : Phrase)
  | not (p : Phrase)
  | optional (p : Phrase)
  | all (members : List Phrase)
  /-- Two or more alternatives. -/
  | alternatives (first second : Phrase) (others : List Phrase)

/-- A head, which is an anchor or a group, and its constraints. -/
structure NodePhrase where
  head : Phrase
  constraints : List Phrase

/-- Alternatives read so far: at least one. -/
structure Arms where
  first : Phrase
  others : List Phrase

namespace Arms

def add (a : Arms) (p : Phrase) : Arms :=
  { a with others := a.others ++ [p] }

def toPhrase (a : Arms) : Phrase :=
  match a.others with
  | [] => a.first
  | second :: others => .alternatives a.first second others

end Arms

/-- What has been read ahead of a constraint that is not complete yet. -/
inductive Opening
  | not
  | optional
  | relation (symbol : String)

def Opening.complete (p : Phrase) : Opening → Phrase
  | not => .not p
  | optional => .optional p
  | relation symbol => .relation symbol p

/-- An open node or an open bracket. -/
inductive Scope
  /-- A node whose head is awaited. -/
  | headless
  | node (head : Phrase)
  | bracket

/-- What has been read of a scope: its finished constraints, latest first, and the openings of the
one being read, innermost first. After a bar the next constraint joins the latest one. -/
structure Level where
  scope : Scope
  constraints : List Arms
  joining : Bool
  openings : List Opening

namespace Level

def start (scope : Scope) : Level := ⟨scope, [], false, []⟩

/-- Whether a constraint, and not a node, is called for. -/
def wantsConstraint (l : Level) : Bool :=
  match l.scope, l.openings with
  | .headless, _ => false
  | _, .relation _ :: _ => false
  | _, _ => true

/-- Whether everything begun has been completed. -/
def isSettled (l : Level) : Bool :=
  match l.scope with
  | .headless => false
  | _ => l.openings.isEmpty && !l.joining

def push (l : Level) (o : Opening) : Level :=
  { l with openings := o :: l.openings }

/-- Completes the constraint being read. -/
def add? (l : Level) (p : Phrase) : Option Level :=
  let p := l.openings.foldl (fun p o => o.complete p) p
  if l.joining then
    match l.constraints with
    | arms :: rest => some ⟨l.scope, arms.add p :: rest, false, []⟩
    | [] => none
  else some ⟨l.scope, ⟨p, []⟩ :: l.constraints, false, []⟩

/-- An anchor, or a group: a head, an operand or, if it is a group, a constraint. -/
def addNode? (l : Level) (p : Phrase) : Option Level :=
  match l.scope with
  | .headless => some { l with scope := .node p }
  | _ => l.add? p

def phrases (l : Level) : List Phrase :=
  l.constraints.reverse.map Arms.toPhrase

end Level

/-- The innermost open level and those around it. -/
structure Reading where
  level : Level
  outer : List Level

namespace Reading

def start : Reading := ⟨.start .headless, []⟩

/-- Begins a constraint, where one is called for. -/
def openWith (s : Reading) (o : Opening) : Option Reading :=
  if s.level.wantsConstraint then some { s with level := s.level.push o } else none

def next? (s : Reading) : Token → Option Reading
  | .anchor a =>
    if s.level.wantsConstraint then none
    else (s.level.addNode? (.anchor a)).map fun level => { s with level }
  | .operator symbol => s.openWith (.relation symbol)
  | .not => s.openWith .not
  | .optional => s.openWith .optional
  | .bar =>
    if s.level.isSettled && !s.level.constraints.isEmpty then
      some { s with level := { s.level with joining := true } }
    else none
  | .openBracket =>
    if s.level.wantsConstraint then some ⟨.start .bracket, s.level :: s.outer⟩ else none
  | .closeBracket =>
    match s.level.scope, s.outer with
    | .bracket, above :: outer =>
      if s.level.isSettled && !s.level.constraints.isEmpty then
        (above.add? (.all s.level.phrases)).map fun level => ⟨level, outer⟩
      else none
    | _, _ => none
  | .openBrace => some ⟨.start .headless, s.level :: s.outer⟩
  | .closeBrace capture =>
    match s.level.scope, s.outer with
    | .node head, above :: outer =>
      if s.level.isSettled then
        (above.addNode? (.group head s.level.phrases capture)).map fun level => ⟨level, outer⟩
      else none
    | _, _ => none

def finish? (s : Reading) : Option NodePhrase :=
  match s.level.scope, s.outer with
  | .node head, [] => if s.level.isSettled then some ⟨head, s.level.phrases⟩ else none
  | _, _ => none

end Reading

def NodePhrase.ofTokens? (tokens : List Token) : Option NodePhrase :=
  (tokens.foldlM Reading.next? .start).bind Reading.finish?

def NodePhrase.ofText? (cs : List Char) : Option NodePhrase :=
  (Token.cut? true cs).bind ofTokens?

end TreeQuery.Query
