import TreeQuery.Query.Phrase
import TreeQuery.Pattern.Basic

namespace TreeQuery

variable [RegexEngine]

namespace Query

inductive QueryError
  | notAQuery
  | unknownOperator (e : Operator.Unknown)
  | badRegex (source : String)
deriving DecidableEq

def QueryError.message [Unicode.Tables] : QueryError → String
  | notAQuery => "Query error: not a query"
  | unknownOperator e => "Query error: " ++ e.message
  | badRegex source => "Query error: invalid regex /" ++ source ++ "/"

def Value.resolve (text : String → Anchor) (regex : TextRegex → Anchor) :
    Value → Except QueryError Anchor
  | .text s => .ok (text s)
  | .regex source anchored =>
    match TextRegex.compile? source anchored with
    | some re => .ok (regex re)
    | none => .error (.badRegex source)

def Base.resolve : Base → Except QueryError Anchor
  | any => .ok .any
  | label v => v.resolve .label .labelMatching
  | word v => v.resolve .word .wordMatching
  | category v => v.resolve .category .categoryMatching
  | sameAs var => .ok (.sameAs var)
  | differentFrom var => .ok (.differentFrom var)

def Literal.resolve (a : Literal) : Except QueryError Anchor :=
  a.base.resolve.map fun anchor =>
    match a.capture with
    | some var => anchor.capture var
    | none => anchor

/-- Alternatives are tried from the left; they nest to the right. -/
def alternatives (first : Pattern) : List Pattern → Pattern
  | [] => first
  | p :: ps => .or first (alternatives p ps)

mutual

def Phrase.resolve : Phrase → Except QueryError Pattern
  | .anchor a => a.resolve.map .ofAnchor
  | .group head constraints capture => do
    let cs ← resolveAll constraints
    let p ← head.resolve
    let g := Pattern.group (cs.foldl .constrain p)
    return match capture with
      | some var => .capture g var
      | none => g
  | .relation symbol operand => do
    let op ← (Operator.parse symbol).mapError .unknownOperator
    let p ← operand.resolve
    return .related op p
  | .not p => p.resolve.map .not
  | .optional p => p.resolve.map .optional
  | .all members => (resolveAll members).map .all
  | .alternatives first second others => do
    let p ← first.resolve
    let q ← second.resolve
    let ps ← resolveAll others
    return alternatives p (q :: ps)

def resolveAll : List Phrase → Except QueryError (List Pattern)
  | [] => .ok []
  | p :: ps => do
    let q ← p.resolve
    let qs ← resolveAll ps
    return q :: qs

end

def NodePhrase.resolve (n : NodePhrase) : Except QueryError Pattern := do
  let cs ← resolveAll n.constraints
  let p ← n.head.resolve
  return cs.foldl .constrain p

end Query

open Query in
def Pattern.parse (query : String) : Except QueryError Pattern :=
  match NodePhrase.ofText? query.toList with
  | some n => n.resolve
  | none => .error .notAQuery

end TreeQuery
