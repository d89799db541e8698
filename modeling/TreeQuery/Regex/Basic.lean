import TreeQuery.Regex.CharClass

namespace TreeQuery

open Unicode

variable [Tables]

/-- Where a position stands with respect to words. -/
inductive WordEdge
  | boundary
  | inside
  | start
  | stop
  | startHalf
  | stopHalf
deriving DecidableEq

def WordEdge.holds (before after : Bool) : WordEdge → Bool
  | boundary => before != after
  | inside => before == after
  | start => !before && after
  | stop => before && !after
  | startHalf => !before
  | stopHalf => !after

/-- An assertion about the two neighbours of a position. -/
inductive Look
  | textStart
  | textEnd
  | lineStart
  | lineEnd
  /-- Lines end with a carriage return, a line feed or both. -/
  | returnLineStart
  | returnLineEnd
  | word (edge : WordEdge) (chars : CharClass)
deriving DecidableEq

namespace Look

def holds (before after : Option Char) : Look → Bool
  | textStart => before.isNone
  | textEnd => after.isNone
  | lineStart => before.isNone || before == some '\n'
  | lineEnd => after.isNone || after == some '\n'
  | returnLineStart =>
    before.isNone || before == some '\n' || (before == some '\r' && after != some '\n')
  | returnLineEnd =>
    after.isNone || after == some '\r' || (after == some '\n' && before != some '\r')
  | word edge chars => edge.holds (before.any chars.contains) (after.any chars.contains)

end Look

inductive Regex
  /-- Matches the empty text only. -/
  | empty
  | set (cls : CharClass)
  | look (assertion : Look)
  | seq (r s : Regex)
  | alt (r s : Regex)
  /-- At least `min` times, and at most `max` times if there is a limit. -/
  | repeated (r : Regex) (min : Nat) (max : Option Nat)
deriving DecidableEq

namespace Regex

def seqAll : List Regex → Regex
  | [] => empty
  | [r] => r
  | r :: rs => seq r (seqAll rs)

/-- The alternatives `rs` and, last, `r`. -/
def altAll (rs : List Regex) (r : Regex) : Regex :=
  rs.foldr alt r

end Regex

end TreeQuery
