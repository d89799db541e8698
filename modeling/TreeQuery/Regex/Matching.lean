import TreeQuery.Regex.Basic

namespace TreeQuery.Regex

variable [Unicode.Tables]

/-- Whether the empty text between `before` and `after` matches. -/
def nullable (before after : Option Char) : Regex → Bool
  | empty => true
  | set _ => false
  | look assertion => assertion.holds before after
  | seq r s => r.nullable before after && s.nullable before after
  | alt r s => r.nullable before after || s.nullable before after
  | repeated r min _ => min == 0 || r.nullable before after

/-- What is left to match once `c`, standing after `before`, has been read. Rounds that match the
empty text count towards the least number of rounds. -/
def rest (before : Option Char) (c : Char) : Regex → List Regex
  | empty => []
  | set cls => if cls.contains c then [empty] else []
  | look _ => []
  | seq r s =>
    (r.rest before c).map (seq · s) ++
      if r.nullable before (some c) then s.rest before c else []
  | alt r s => r.rest before c ++ s.rest before c
  | repeated r min max =>
    if max = some 0 then []
    else
      let fewer := if r.nullable before (some c) then 0 else min - 1
      (r.rest before c).map (seq · (repeated r fewer (max.map (· - 1))))

/-- Whether a match of `r` that starts here or later, or one of `states` that starts here, ends
somewhere in the text. -/
def found (r : Regex) (before : Option Char) (states : List Regex) : List Char → Bool
  | [] => states.any (·.nullable before none) || r.nullable before none
  | c :: cs =>
    states.any (·.nullable before (some c)) || r.nullable before (some c) ||
      found r (some c) ((r :: states).flatMap (·.rest before c)).eraseDups cs

/-- Whether `r` matches anywhere in the text. -/
def isMatch (r : Regex) (text : List Char) : Bool :=
  found r none [] text

end TreeQuery.Regex
