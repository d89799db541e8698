import TreeQuery.Regex.TextRegex

namespace TreeQuery

/-- A language of regular expressions: the texts that are one, and which stretch of a text, standing
between two others, one matches. Limits on the size of an expression are no part of it. -/
structure RegexLanguage where
  WellFormed : String → Prop
  Spans : String → List Char → List Char → List Char → Prop

/-- The source in a group that captures nothing. -/
def groupedSource (source : String) : String :=
  "(?:" ++ source ++ ")"

theorem anchoredSource_eq (source : String) :
    anchoredSource source = "^" ++ groupedSource source := by
  rw [anchoredSource, groupedSource, ← String.append_assoc, ← String.append_assoc]
  rfl

namespace RegexLanguage

/-- An expression that a closing parenthesis after it spoils. -/
def Complete (L : RegexLanguage) (source : String) : Prop :=
  L.WellFormed source ∧ ¬ L.WellFormed (source ++ ")")

/-- An expression that a closing parenthesis after it does not spoil, as where it ends with a
comment. -/
def HidesParen (L : RegexLanguage) (source : String) : Prop :=
  L.WellFormed source ∧ L.WellFormed (source ++ ")")

/-- A parenthesis in the source closes a group that was not opened in it. -/
def ClosesUnopened (L : RegexLanguage) (source : String) : Prop :=
  ∃ body rest, source = body ++ ")" ++ rest ∧ L.Complete body

/-- What is documented of groups, of the caret and of one expression after another. -/
structure Documented (L : RegexLanguage) : Prop where
  /-- A group matches what the expression in it matches. -/
  group : ∀ source, L.Complete source → L.WellFormed (groupedSource source) ∧
    ∀ before matched after, L.Spans (groupedSource source) before matched after ↔
      L.Spans source before matched after
  /-- The caret matches nothing, at the start of the text. -/
  caret : ∀ before matched after, L.Spans "^" before matched after ↔ before = [] ∧ matched = []
  /-- A group after the caret matches from where the caret has matched. -/
  sequence : ∀ source, L.Complete source → L.WellFormed ("^" ++ groupedSource source) ∧
    ∀ before matched after, L.Spans ("^" ++ groupedSource source) before matched after ↔
      ∃ first second, matched = first ++ second ∧ L.Spans "^" before first (second ++ after) ∧
        L.Spans (groupedSource source) (before ++ first) second after
  /-- A group ends with the parenthesis that closes it. -/
  closed : ∀ text, L.WellFormed ("^(?:" ++ text) →
    ∃ body rest, text = body ++ ")" ++ rest ∧ L.Complete body
  /-- A parenthesis closes nothing but a group. -/
  unopened : ∀ body rest, L.Complete body → ¬ L.WellFormed (body ++ ")" ++ rest)

section Documented

variable {L : RegexLanguage} {source : String}

theorem Documented.not_wellFormed (h : L.Documented) (hcloses : L.ClosesUnopened source) :
    ¬ L.WellFormed source := by
  obtain ⟨body, rest, rfl, hbody⟩ := hcloses
  exact h.unopened body rest hbody

theorem Documented.wellFormed_anchored (h : L.Documented) (hcomplete : L.Complete source) :
    L.WellFormed (anchoredSource source) := by
  rw [anchoredSource_eq]
  exact (h.sequence source hcomplete).1

/-- The group around the source is closed by the parenthesis after it, or in it. -/
theorem Documented.of_wellFormed_anchored (h : L.Documented)
    (hanchored : L.WellFormed (anchoredSource source)) :
    L.Complete source ∨ L.ClosesUnopened source := by
  rw [anchoredSource, String.append_assoc] at hanchored
  obtain ⟨body, rest, he, hbody⟩ := h.closed _ hanchored
  have he := congrArg String.toList he
  simp only [String.toList_append] at he
  rcases List.eq_nil_or_concat rest.toList with hrest | ⟨before, last, hrest⟩
  · rw [hrest, List.append_nil] at he
    obtain rfl : source = body := String.toList_injective (List.append_cancel_right he)
    exact .inl hbody
  · rw [hrest, List.concat_eq_append, ← List.append_assoc] at he
    obtain ⟨he, _⟩ := List.append_inj' he rfl
    refine .inr ⟨body, String.ofList before, String.toList_injective ?_, hbody⟩
    simpa using he

/-- Of a source that is one both by itself and anchored, the parenthesis that is added closes the
group. -/
theorem Documented.complete (h : L.Documented) (hfree : L.WellFormed source)
    (hanchored : L.WellFormed (anchoredSource source)) : L.Complete source :=
  (h.of_wellFormed_anchored hanchored).resolve_right
    fun hcloses => h.not_wellFormed hcloses hfree

/-- The group is not closed by a parenthesis in a comment. -/
theorem Documented.not_wellFormed_anchored (h : L.Documented) (hhides : L.HidesParen source) :
    ¬ L.WellFormed (anchoredSource source) := by
  rw [anchoredSource, String.append_assoc]
  intro hanchored
  obtain ⟨body, rest, he, hbody⟩ := h.closed _ hanchored
  exact h.unopened body rest hbody (he ▸ hhides.2)

theorem Documented.spans_anchored (h : L.Documented) (hcomplete : L.Complete source)
    (before matched after : List Char) :
    L.Spans (anchoredSource source) before matched after ↔
      before = [] ∧ L.Spans source [] matched after := by
  have hgroup := (h.group source hcomplete).2
  rw [anchoredSource_eq, (h.sequence source hcomplete).2]
  constructor
  · rintro ⟨first, second, rfl, hcaret, hspans⟩
    obtain ⟨rfl, rfl⟩ := (h.caret _ _ _).mp hcaret
    exact ⟨rfl, (hgroup _ _ _).mp hspans⟩
  · rintro ⟨rfl, hspans⟩
    exact ⟨[], matched, rfl, (h.caret _ _ _).mpr ⟨rfl, rfl⟩, (hgroup _ _ _).mpr hspans⟩

end Documented

end RegexLanguage

/-- The engine compiles the expressions of the language and no other text, and tells whether one has
a match somewhere in a text. -/
structure RegexEngine.Implements [RegexEngine] (L : RegexLanguage) : Prop where
  isSome_compile? : ∀ source, (compile? source).isSome ↔ L.WellFormed source
  isMatch_iff : ∀ source r, compile? source = some r → ∀ text, isMatch r text = true ↔
    ∃ before matched after, text.toList = before ++ matched ++ after ∧
      L.Spans source before matched after

end TreeQuery
