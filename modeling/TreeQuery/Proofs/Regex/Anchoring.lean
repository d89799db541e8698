import TreeQuery.Proofs.Regex.Conformance
import TreeQuery.Unicode.Version15

namespace TreeQuery.TextRegex

section Engine

variable [RegexEngine] {L : RegexLanguage} {source : String} {anchored : Bool} {re : TextRegex}

theorem map_regex_compile? (source : String) (anchored : Bool) :
    (compile? source anchored).map regex =
      RegexEngine.compile? (effectiveSource source anchored) := by
  unfold compile?
  split
  · rename_i h
    exact h.symm
  · rename_i h
    exact h.symm

theorem isSome_compile? (himpl : RegexEngine.Implements L) :
    (compile? source anchored).isSome ↔ L.WellFormed (effectiveSource source anchored) := by
  rw [← himpl.isSome_compile?, ← map_regex_compile?, Option.isSome_map]

theorem isMatch_iff (himpl : RegexEngine.Implements L) (h : compile? source anchored = some re)
    (text : String) : re.isMatch text = true ↔ ∃ before matched after,
      text.toList = before ++ matched ++ after ∧
        L.Spans (effectiveSource source anchored) before matched after := by
  refine himpl.isMatch_iff _ re.regex ?_ text
  rw [← map_regex_compile?, h]
  rfl

/-- Anchoring asks for a match that begins with the text. It takes the same sources, unless the
closing parenthesis that it adds would be in a comment, or the source closes the group that it is
put in and what results is an expression. -/
theorem compile?_anchored_iff (hdoc : L.Documented) (himpl : RegexEngine.Implements L)
    (source : String) :
    (((compile? source true).isSome ↔ (compile? source false).isSome) ↔
      ¬ L.HidesParen source ∧ (L.ClosesUnopened source → compile? source true = none)) ∧
    ∀ re re', compile? source false = some re → compile? source true = some re' →
      ∀ text, re'.isMatch text = true ↔
        ∃ matched after, text.toList = matched ++ after ∧ L.Spans source [] matched after := by
  constructor
  · rw [← Option.not_isSome_iff_eq_none, isSome_compile? himpl, isSome_compile? himpl]
    change (L.WellFormed (anchoredSource source) ↔ L.WellFormed source) ↔
      _ ∧ (_ → ¬ L.WellFormed (anchoredSource source))
    constructor
    · refine fun hsame => ⟨fun hhides => ?_, fun hcloses => ?_⟩
      · exact hdoc.not_wellFormed_anchored hhides (hsame.mpr hhides.1)
      · exact fun hanchored => hdoc.not_wellFormed hcloses (hsame.mp hanchored)
    · rintro ⟨hhides, hcloses⟩
      constructor
      · intro hanchored
        rcases hdoc.of_wellFormed_anchored hanchored with hcomplete | hunopened
        · exact hcomplete.1
        · exact absurd hanchored (hcloses hunopened)
      · exact fun hfree => hdoc.wellFormed_anchored ⟨hfree, fun h => hhides ⟨hfree, h⟩⟩
  · intro re re' h h' text
    have hfree : L.WellFormed source := (isSome_compile? himpl).mp (Option.isSome_of_eq_some h)
    have hanchored : L.WellFormed (anchoredSource source) :=
      (isSome_compile? himpl).mp (Option.isSome_of_eq_some h')
    have hcomplete := hdoc.complete hfree hanchored
    refine (isMatch_iff himpl h' text).trans ?_
    change (∃ before matched after, _ ∧ L.Spans (anchoredSource source) before matched after) ↔ _
    simp only [hdoc.spans_anchored hcomplete]
    constructor
    · rintro ⟨_, matched, after, he, rfl, hspans⟩
      exact ⟨matched, after, he, hspans⟩
    · rintro ⟨matched, after, he, hspans⟩
      exact ⟨[], matched, after, he, rfl, hspans⟩

end Engine

/-- The same text, free and anchored. -/
def alternatives : TextRegex where
  source := "a|b"
  anchored := false
  regex := Regex.alt (.set (.single 'a')) (.set (.single 'b'))
  compiled := show Regex.ofSource? _ = some _ by decide +kernel

def anchoredAlternatives : TextRegex where
  source := "a|b"
  anchored := true
  regex := Regex.seq (.look .textStart) (.alt (.set (.single 'a')) (.set (.single 'b')))
  compiled := show Regex.ofSource? _ = some _ by decide +kernel

theorem compile?_anchored_iff_alternatives :
    Regex.language.Documented ∧ RegexEngine.Implements Regex.language ∧
      compile? "a|b" false = some alternatives ∧ compile? "a|b" true = some anchoredAlternatives ∧
      (((compile? "a|b" true).isSome ↔ (compile? "a|b" false).isSome) ↔
        ¬ Regex.language.HidesParen "a|b" ∧
          (Regex.language.ClosesUnopened "a|b" → compile? "a|b" true = none)) ∧
      (anchoredAlternatives.isMatch "xb" = true ↔ ∃ matched after,
        "xb".toList = matched ++ after ∧ Regex.language.Spans "a|b" [] matched after) := by
  have h : compile? "a|b" false = some alternatives := by decide +kernel
  have h' : compile? "a|b" true = some anchoredAlternatives := by decide +kernel
  have hsame := compile?_anchored_iff Regex.language_documented Regex.engine_implements "a|b"
  exact ⟨Regex.language_documented, Regex.engine_implements, h, h', hsame.1,
    hsame.2 _ _ h h' "xb"⟩

/-- A text that closes the group that it is put in, and opens another, is an expression only when it
is anchored, and then matches later than at the start; one that ends with a comment is an expression
only when it is free. -/
theorem not_compile?_anchored :
    compile? "a)|(?:b" false = none ∧
      (∃ re ∈ compile? "a)|(?:b" true, re.isMatch "xb" = true) ∧
      (compile? "(?x)a#" false).isSome ∧ compile? "(?x)a#" true = none := by
  decide +kernel

end TreeQuery.TextRegex
