import TreeQuery.Text.Numeral
import TreeQuery.Text.Quoted

namespace TreeQuery

inductive Operator
  | child
  | descendant
  | firstChild
  | secondChild
  /-- Children are counted from one. -/
  | nthChild (n : UInt64)
  | everyChild
  | parent
  | ancestor
  | nextLeaf
  | laterLeaf
  | sibling
  | nextSibling
  | laterSibling
  | self
  | head
  | headChain
  | childCount (n : UInt64)
  | headIndex (n : UInt64)
deriving DecidableEq

namespace Operator

def symbol : Operator → String
  | child => "<"
  | descendant => "<<"
  | firstChild => "<1"
  | secondChild => "<2"
  | nthChild n => "<" ++ Numeral.print n
  | everyChild => "<%"
  | parent => ">"
  | ancestor => ">>"
  | nextLeaf => "."
  | laterLeaf => ".."
  | sibling => "$"
  | nextSibling => "$."
  | laterSibling => "$.."
  | self => "&"
  | head => "<#"
  | headChain => "<<#"
  | childCount n => "#<" ++ Numeral.print n
  | headIndex n => "##" ++ Numeral.print n

/-- The operators without a number. -/
def plain : List Operator :=
  [child, descendant, firstChild, secondChild, everyChild, parent, ancestor, nextLeaf, laterLeaf,
   sibling, nextSibling, laterSibling, self, head, headChain]

def plain? (symbol : String) : Option Operator :=
  plain.find? fun op => op.symbol = symbol

def numbered? : List Char → Option Operator
  | '#' :: '#' :: digits => (Numeral.read? digits).map headIndex
  | '#' :: '<' :: digits => (Numeral.read? digits).map childCount
  | '<' :: digits => (Numeral.read? digits).map nthChild
  | _ => none

/-- A symbol that denotes no operator. -/
structure Unknown where
  symbol : String
deriving DecidableEq

def Unknown.message [Unicode.Tables] (e : Unknown) : String :=
  "invalid operator " ++ Quoted.write e.symbol

def parse (symbol : String) : Except Unknown Operator :=
  match (plain? symbol).or (numbered? symbol.toList) with
  | some op => .ok op
  | none => .error ⟨symbol⟩

end Operator

end TreeQuery
