import TreeQuery.Proofs.Query.Anchors
import TreeQuery.Proofs.Text.Guarded
import TreeQuery.Regex.Engine
import TreeQuery.Unicode.Version15

namespace TreeQuery.Query

open Text Token Quoted

/-- A text in quotes, with a backslash before each quote and each backslash. -/
def quotedLiteral (s : String) : List Char :=
  '"' :: (guarded isQuoteMark s.toList ++ ['"'])

/-- A source between slashes, with a backslash before each slash. -/
def regexLiteral (source : String) (anchored : Bool) : List Char :=
  '/' :: (guarded isSlash source.toList ++ '/' :: if anchored then [] else ['a'])

theorem quoted?_literal (s : String) : quoted? (quotedLiteral s) = some (.text s, []) := by
  have hbody := closed_guarded_quotes s.toList []
  rw [quotedLiteral, quoted?, hbody, Option.map_some]
  simp only [unescape_guarded_quotes, String.ofList_toList]

theorem regex?_literal {source : String} (h : EvenBackslashes source.toList) (anchored : Bool) :
    regex? (regexLiteral source anchored) = some (.regex source anchored, []) := by
  have hbody := closed_guarded_slashes h (if anchored then [] else ['a'])
  rw [regexLiteral, regex?, hbody, Option.map_some]
  simp only [unescapeSlashes_guarded, String.ofList_toList]
  cases anchored <;> rfl

/-- What stands between delimiters is read alone, after the sign for words and after the one for
categories. -/
theorem parse_delimited [RegexEngine] {cs : List Char} {v : Value}
    (h : (regex? cs).or (quoted? cs) = some (v, [])) :
    Pattern.parse (.ofList cs) = (Base.label v).resolve.map .ofAnchor ∧
    Pattern.parse (.ofList ('^' :: cs)) = (Base.word v).resolve.map .ofAnchor ∧
    Pattern.parse (.ofList ('@' :: cs)) = (Base.category v).resolve.map .ofAnchor := by
  have hfirst (bare : Option (Value × List Char)) :
      (regex? cs).or ((quoted? cs).or bare) = some (v, []) := by
    rw [← Option.or_assoc, h, Option.some_or]
  refine ⟨?_, ?_, ?_⟩
  · cases cs with
    | nil => simp [regex?, quoted?] at h
    | cons c cs =>
      by_cases hslash : c = '/'
      · subst hslash
        have hregex : regex? ('/' :: cs) = some (v, []) := by
          rwa [quoted?_eq_none (by decide), Option.or_none] at h
        apply parse_of_base (by decide) (by decide)
        rw [base?, hregex, Option.map_some]
      · have hregex : regex? (c :: cs) = none := by
          rw [regex?]
          intro _ he
          exact hslash (List.cons.inj he).1
        by_cases hquote : c = '"'
        · subst hquote
          have hread := hfirst (bare? ('"' :: cs))
          apply parse_of_base (by decide) (by decide)
          rw [hregex, Option.none_or] at hread
          rw [base?_of_unmarked (by decide), hread, Option.map_some]
        · simp [hregex, quoted?_eq_none hquote] at h
  · apply parse_of_base (by decide) (by decide)
    rw [base?, hfirst, Option.map_some]
  · apply parse_of_base (by decide) (by decide)
    rw [base?, hfirst, Option.map_some]

/-- Every text can be written in quotes, and every source that can be compiled, and whose own
backslashes keep off its slashes and its end, between slashes. What is read has exactly this text,
or this source and this anchoring. -/
theorem parse_literal [RegexEngine] :
    (∀ s : String,
      Pattern.parse (.ofList (quotedLiteral s)) = .ok (.ofAnchor (.label s)) ∧
      Pattern.parse (.ofList ('^' :: quotedLiteral s)) = .ok (.ofAnchor (.word s)) ∧
      Pattern.parse (.ofList ('@' :: quotedLiteral s)) = .ok (.ofAnchor (.category s))) ∧
    ∀ source anchored re, TextRegex.compile? source anchored = some re →
      EvenBackslashes source.toList →
      re.source = source ∧ re.anchored = anchored ∧
      Pattern.parse (.ofList (regexLiteral source anchored)) =
        .ok (.ofAnchor (.labelMatching re)) ∧
      Pattern.parse (.ofList ('^' :: regexLiteral source anchored)) =
        .ok (.ofAnchor (.wordMatching re)) ∧
      Pattern.parse (.ofList ('@' :: regexLiteral source anchored)) =
        .ok (.ofAnchor (.categoryMatching re)) := by
  constructor
  · intro s
    have hread : (regex? (quotedLiteral s)).or (quoted? (quotedLiteral s)) =
        some (.text s, []) := by
      rw [quoted?_literal]
      rfl
    exact parse_delimited hread
  · intro source anchored re hre heven
    have hread : (regex? (regexLiteral source anchored)).or
        (quoted? (regexLiteral source anchored)) = some (.regex source anchored, []) := by
      rw [regex?_literal heven, Option.some_or]
    obtain ⟨hlabel, hword, hcategory⟩ := parse_delimited hread
    obtain ⟨hsource, hanchored⟩ := TextRegex.of_compile? hre
    rw [hlabel, hword, hcategory]
    simp only [Base.resolve, Value.resolve, hre]
    exact ⟨hsource, hanchored, rfl, rfl, rfl⟩

/-- A text with a quote, ending in a backslash, and a source with a slash after two backslashes. -/
theorem parse_literal_backslashes :
    Pattern.parse "^\"a\\\"b\\\\\"" = .ok (.ofAnchor (.word "a\"b\\")) ∧
      EvenBackslashes "a\\\\/b".toList ∧
      ∃ re, TextRegex.compile? "a\\\\/b" false = some re ∧ re.source = "a\\\\/b" ∧
        Pattern.parse "@/a\\\\\\/b/a" = .ok (.ofAnchor (.categoryMatching re)) := by
  have heven : EvenBackslashes "a\\\\/b".toList := by
    have hchars : "a\\\\/b".toList = ['a', '\\', '\\', '/', 'b'] := by decide
    rw [hchars, evenBackslashes_cons (by decide), evenBackslashes_pair,
      evenBackslashes_cons (by decide), evenBackslashes_cons (by decide)]
    exact ⟨by decide, evenBackslashes_nil⟩
  have hcompiles : (TextRegex.compile? "a\\\\/b" false).isSome = true := by decide +kernel
  obtain ⟨re, hre⟩ := Option.isSome_iff_exists.mp hcompiles
  obtain ⟨_, hword, _⟩ := parse_literal.1 "a\"b\\"
  obtain ⟨hsource, _, _, _, hcategory⟩ := parse_literal.2 "a\\\\/b" false re hre heven
  exact ⟨hword, heven, re, hre, hsource, hcategory⟩

end TreeQuery.Query
