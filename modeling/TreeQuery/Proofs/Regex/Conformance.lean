import TreeQuery.Proofs.Regex.Grouping
import TreeQuery.Proofs.Regex.Language
import TreeQuery.Regex.Engine

namespace TreeQuery.Regex

open Token

variable [Unicode.Tables]

theorem reads_caret {cs : List Char} {r : Regex} : Reads .start .start ('^' :: cs) r ↔
    Reads .start (Reading.start.push (.look .textStart)) cs r := by
  have hcaret : head? .start (skip false ('^' :: cs)) = some (caret, cs) := rfl
  constructor
  · intro h
    obtain ⟨m, s, hm, hs, h⟩ := h.next hcaret
    cases hm
    cases hs
    exact h
  · exact .step hcaret (Nat.lt_succ_self _) rfl rfl

/-- A group that captures nothing, opened after what has been read. -/
theorem reads_grouped {g : Group} {cs : List Char} {r : Regex} (hflags : g.flags = .standard) :
    Reads .start ⟨g, [], [], []⟩ ('(' :: '?' :: ':' :: cs) r ↔
      Reads Mode.start.within (Reading.start.within g) cs r := by
  have hopen : head? .start (skip false ('(' :: '?' :: ':' :: cs)) =
      some (groupOpen none ⟨[], []⟩, cs) := rfl
  have hnext : Reading.next? ⟨g, [], [], []⟩ (groupOpen none ⟨[], []⟩) =
      some (Reading.start.within g) := by
    simp only [Reading.next?, Reading.outside?, Reading.flags, hflags]
    rfl
  constructor
  · intro h
    obtain ⟨m, s, hm, hs, h⟩ := h.next hopen
    cases hm
    cases hnext.symm.trans hs
    exact h
  · exact .step hopen (by simp; omega) rfl hnext

theorem ofSource?_caret : ofSource? "^" = some (.look .textStart) :=
  ofSource?_eq_some.mpr (reads_caret.mpr (.done rfl rfl))

section Sources

variable {source : String} {r : Regex}

theorem ofSource?_anchored {text : String} : ofSource? ("^(?:" ++ text) = some r ↔
    Reads Mode.start.within
      (Reading.start.within (Reading.start.push (.look .textStart)).group) text.toList r := by
  rw [ofSource?_eq_some, String.toList_append]
  exact reads_caret.trans (reads_grouped rfl)

theorem not_reads_of_complete (h : ¬ (ofSource? (source ++ ")")).isSome) (r : Regex) :
    ¬ Reads .start .start (source.toList ++ [')']) r := by
  intro hr
  have hread : ofSource? (source ++ ")") = some r := by
    rw [ofSource?_eq_some, String.toList_append]
    exact hr
  exact h (Option.isSome_of_eq_some hread)

/-- The parenthesis that closes the group around an expression that it spoils. -/
theorem reads_within_of_complete {g : Group} (h : ofSource? source = some r)
    (hspoilt : ¬ (ofSource? (source ++ ")")).isSome) :
    Reads Mode.start.within (Reading.start.within g) (source ++ ")").toList
      (g.push r).toRegex := by
  rw [String.toList_append]
  exact ((ofSource?_eq_some.mp h).append_paren coupled_start).resolve_right
    (not_reads_of_complete hspoilt r)

theorem ofSource?_groupedSource (h : ofSource? source = some r)
    (hspoilt : ¬ (ofSource? (source ++ ")")).isSome) :
    ofSource? (groupedSource source) = some r := by
  rw [groupedSource, String.append_assoc, ofSource?_eq_some, String.toList_append]
  exact (reads_grouped rfl).mpr (reads_within_of_complete (g := .start .standard) h hspoilt)

theorem ofSource?_caret_groupedSource (h : ofSource? source = some r)
    (hspoilt : ¬ (ofSource? (source ++ ")")).isSome) :
    ofSource? ("^" ++ groupedSource source) = some (.seq (.look .textStart) r) := by
  rw [← anchoredSource_eq, anchoredSource, String.append_assoc, ofSource?_anchored]
  exact reads_within_of_complete h hspoilt

end Sources

/-- The expressions that are read here, and what they match. -/
def language : RegexLanguage where
  WellFormed source := (ofSource? source).isSome
  Spans source before matched after :=
    ∃ r, ofSource? source = some r ∧ r.Spans before matched after

theorem language_spans_iff {source : String} {r : Regex} (h : ofSource? source = some r)
    (before matched after : List Char) :
    language.Spans source before matched after ↔ r.Spans before matched after := by
  constructor
  · rintro ⟨r', hr, hspans⟩
    cases h.symm.trans hr
    exact hspans
  · exact fun hspans => ⟨r, h, hspans⟩

theorem language_spans_caret (before matched after : List Char) :
    language.Spans "^" before matched after ↔ before = [] ∧ matched = [] := by
  rw [language_spans_iff ofSource?_caret, Spans, and_comm]
  simp [Look.holds]

theorem language_documented : language.Documented where
  group source := by
    rintro ⟨hread, hspoilt⟩
    obtain ⟨r, hr⟩ := Option.isSome_iff_exists.mp hread
    have hgroup := ofSource?_groupedSource hr hspoilt
    refine ⟨Option.isSome_of_eq_some hgroup, fun before matched after => ?_⟩
    rw [language_spans_iff hgroup, language_spans_iff hr]
  caret := language_spans_caret
  sequence source := by
    rintro ⟨hread, hspoilt⟩
    obtain ⟨r, hr⟩ := Option.isSome_iff_exists.mp hread
    have hsequence := ofSource?_caret_groupedSource hr hspoilt
    refine ⟨Option.isSome_of_eq_some hsequence, fun before matched after => ?_⟩
    simp only [language_spans_iff hsequence, language_spans_iff ofSource?_caret,
      language_spans_iff (ofSource?_groupedSource hr hspoilt)]
    rfl
  closed text h := by
    obtain ⟨r, hr⟩ := Option.isSome_iff_exists.mp h
    obtain ⟨body, rest, r', he, hbody, hspoilt⟩ :=
      (ofSource?_anchored.mp hr).exists_closed coupled_start
    have hbody : ofSource? (String.ofList body) = some r' := by
      rwa [ofSource?_eq_some, String.toList_ofList]
    refine ⟨String.ofList body, String.ofList rest, String.toList_injective (by simp [he]),
      Option.isSome_of_eq_some hbody, fun h => ?_⟩
    obtain ⟨r'', hr''⟩ := Option.isSome_iff_exists.mp h
    rw [ofSource?_eq_some, String.toList_append, String.toList_ofList] at hr''
    exact hspoilt r'' hr''
  unopened body rest := by
    rintro ⟨hread, hspoilt⟩ h
    obtain ⟨r, hr⟩ := Option.isSome_iff_exists.mp hread
    obtain ⟨r', hr'⟩ := Option.isSome_iff_exists.mp h
    rw [ofSource?_eq_some, String.toList_append, String.toList_append, List.append_assoc] at hr'
    exact (ofSource?_eq_some.mp hr).not_reads_paren coupled_start
      (not_reads_of_complete hspoilt) rest.toList hr'

theorem engine_implements : RegexEngine.Implements language where
  isSome_compile? _ := Iff.rfl
  isMatch_iff source r h text := by
    refine (isMatch_iff (proper_of_ofSource? h) text.toList).trans ?_
    simp only [language_spans_iff h]
    constructor
    · rintro ⟨before, _, he, matched, after, rfl, hspans⟩
      exact ⟨before, matched, after, by rw [he, List.append_assoc], hspans⟩
    · rintro ⟨before, matched, after, he, hspans⟩
      exact ⟨before, matched ++ after, by rw [he, List.append_assoc], matched, after, rfl, hspans⟩

end TreeQuery.Regex
