import TreeQuery.Regex.Matching
import TreeQuery.Regex.Source
import TreeQuery.Regex.TextRegex

namespace TreeQuery

/-- Expressions in the syntax read here, matched by what each character leaves of them. -/
instance Regex.engine [Unicode.Tables] : RegexEngine where
  Expr := Regex
  compile? := Regex.ofSource?
  isMatch r text := r.isMatch text.toList

end TreeQuery
