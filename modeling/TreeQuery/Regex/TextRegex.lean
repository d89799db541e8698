namespace TreeQuery

/-- What is asked of regular expressions: which texts are one, and whether one has a match somewhere
in a text. -/
class RegexEngine where
  Expr : Type
  compile? : String → Option Expr
  isMatch : Expr → String → Bool

/-- Anchoring puts the source in a group after a start assertion; it works on the text, so a source
that is no expression by itself may become one. -/
def anchoredSource (source : String) : String :=
  "^(?:" ++ source ++ ")"

def effectiveSource (source : String) (anchored : Bool) : String :=
  if anchored then anchoredSource source else source

variable [RegexEngine]

structure TextRegex where
  source : String
  anchored : Bool
  regex : RegexEngine.Expr
  compiled : RegexEngine.compile? (effectiveSource source anchored) = some regex

namespace TextRegex

def compile? (source : String) (anchored : Bool) : Option TextRegex :=
  match h : RegexEngine.compile? (effectiveSource source anchored) with
  | some regex => some ⟨source, anchored, regex, h⟩
  | none => none

theorem ext {a b : TextRegex} (hs : a.source = b.source) (ha : a.anchored = b.anchored) :
    a = b := by
  obtain ⟨s, an, r, h⟩ := a
  obtain ⟨s', an', r', h'⟩ := b
  simp only at hs ha
  subst hs ha
  rw [h] at h'
  cases h'
  rfl

/-- The source and the anchoring determine the expression. -/
instance : DecidableEq TextRegex := fun a b =>
  if h : a.source = b.source ∧ a.anchored = b.anchored then isTrue (ext h.1 h.2)
  else isFalse fun e => h ⟨e ▸ rfl, e ▸ rfl⟩

def isMatch (re : TextRegex) (text : String) : Bool :=
  RegexEngine.isMatch re.regex text

/-- The source between slashes, with the letter `a` after it if it is free. -/
def print (re : TextRegex) : List Char :=
  '/' :: re.source.toList ++ '/' :: (if re.anchored then [] else ['a'])

def toText (re : TextRegex) : String :=
  String.ofList re.print

end TextRegex

end TreeQuery
