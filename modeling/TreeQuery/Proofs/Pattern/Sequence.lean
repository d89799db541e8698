import TreeQuery.Proofs.Pattern.Rewriting
import TreeQuery.Proofs.Query.RoundTrip
import TreeQuery.Regex.Engine
import TreeQuery.Unicode.Version15

namespace TreeQuery

/-- The tests come to the outcome one after the other: each begins with the bindings that the one
before left, and the first that does not hold is the last. -/
inductive Test.Sequence : List Test → Bindings → Outcome → Prop
  | done {s} : Sequence [] s ⟨.ok true, s⟩
  | stop {a ts s} : (a s).answer ≠ .ok true → Sequence (a :: ts) s (a s)
  | next {a ts s s' o} : a s = ⟨.ok true, s'⟩ → Sequence ts s' o → Sequence (a :: ts) s o

theorem Test.all_eq_iff_sequence {ts : List Test} {s : Bindings} {o : Outcome} :
    all ts s = o ↔ Sequence ts s o := by
  constructor
  · rintro rfl
    induction ts generalizing s with
    | nil => exact .done
    | cons a ts ih =>
      rw [all_cons]
      by_cases h : (a s).answer = .ok true
      · rw [both_of_true h]
        exact .next (h ▸ rfl) ih
      · rw [both_of_not_true h]
        exact .stop h
  · intro h
    induction h with
    | done => rfl
    | stop h => rw [all_cons, both_of_not_true h]
    | next h _ ih => rw [all_cons, both_of_true (congrArg Outcome.answer h), h, ih]

namespace Pattern

variable [RegexEngine]

variable {t : Tree} (h : t.WellFormed) {id : NodeId} (hid : id < t.size)

include h hid

theorem test_any_self (p c : Pattern) :
    (node .any [.related .self p, c]).test t id = .both (p.test t id) (c.test t id) := by
  obtain ⟨n, hn⟩ := Tree.lt_size_iff.mp hid
  have hany : Anchor.any.test t id = .yes := Anchor.test_of_get hn .any
  rw [test, hany, testAll, testAll, testAll, equivalent_self p h hid, Test.both_yes]
  rfl

/-- A constraint is asked after the pattern that it is added to. -/
theorem test_constrain (p c : Pattern) :
    (p.constrain c).test t id = .both (p.test t id) (c.test t id) := by
  cases p with
  | node a cs =>
    have hc : testAll t [c] id = c.test t id := Test.both_yes _
    rw [constrain, test, test, testAll_append, hc, Test.both_assoc]
  | _ => exact test_any_self h hid _ c

theorem test_foldl_constrain (p : Pattern) (cs : List Pattern) :
    (cs.foldl constrain p).test t id = .all ((p :: cs).map (·.test t id)) := by
  induction cs generalizing p with
  | nil => exact (Test.both_yes _).symm
  | cons c cs ih =>
    rw [List.foldl_cons, ih]
    simp only [List.map_cons, Test.all_cons]
    rw [test_constrain h hid, Test.both_assoc]

theorem test_foldl_constrain_iff (p : Pattern) (cs : List Pattern) (s : Bindings) (o : Outcome) :
    (cs.foldl constrain p).test t id s = o ↔
      Test.Sequence ((p :: cs).map (·.test t id)) s o := by
  rw [test_foldl_constrain h hid, Test.all_eq_iff_sequence]

end Pattern

namespace Query

/-- The query is a node in braces, followed by constraints: `{ g } c₁ … cₖ` or, with a capture,
`{ g }=v c₁ … cₖ`. -/
structure IsGroup (query : String) (g : NodePhrase) (capture : Option String)
    (cs : List Phrase) : Prop where
  tokens : Token.cut? true query.toList =
    some (.openBrace :: g.tokens ++ .closeBrace capture :: tokensAll cs)
  group : g.Shaped
  constraints : ∀ c ∈ cs, Shaped .constraint c

variable {query : String} {g : NodePhrase} {capture : Option String} {cs : List Phrase}

/-- These are the queries that are read with a group as their head. -/
theorem isGroup_iff : IsGroup query g capture cs ↔
    NodePhrase.ofText? query.toList = some ⟨.group g.head g.constraints capture, cs⟩ := by
  have htokens : NodePhrase.tokens ⟨.group g.head g.constraints capture, cs⟩ =
      .openBrace :: g.tokens ++ .closeBrace capture :: tokensAll cs := by
    simp [NodePhrase.tokens, Phrase.tokens]
  constructor
  · rintro ⟨hts, hg, hcs⟩
    rw [NodePhrase.ofText?, hts, Option.bind_some, NodePhrase.ofTokens?_eq_some]
    exact ⟨⟨.bracedItem (.group capture hg.head hg.constraints), hcs⟩, htokens⟩
  · intro hn
    obtain ⟨ts, hts, hn⟩ := Option.bind_eq_some_iff.mp hn
    obtain ⟨⟨hhead, hcs⟩, rfl⟩ := NodePhrase.ofTokens?_eq_some.mp hn
    cases hhead with
    | bracedItem hbraced =>
      cases hbraced with
      | group _ hinner hconstraints => exact ⟨htokens ▸ hts, ⟨hinner, hconstraints⟩, hcs⟩

/-- The group is read by itself, and then the constraints are added to it. -/
theorem IsGroup.parse_eq_ok [RegexEngine] (h : IsGroup query g capture cs) {q : Pattern}
    (hq : Pattern.parse query = .ok q) :
    ∃ p ps, g.resolve = .ok p ∧ resolveAll cs = .ok ps ∧
      q = ps.foldl .constrain (enclose capture p) := by
  rw [Pattern.parse, isGroup_iff.mp h] at hq
  obtain ⟨ps, head, hps, hhead, rfl⟩ := NodePhrase.resolve_eq_ok.mp hq
  rw [Phrase.resolve_group] at hhead
  obtain ⟨p, hp, rfl⟩ := map_eq_ok.mp hhead
  exact ⟨p, ps, hp, hps, rfl⟩

end Query

open Query

/-- A pattern with constraints added has the outcome of asking it and then the constraints in order,
up to the first that does not hold; and a query that puts constraints on a group is read as a
pattern with the outcome of asking the group and then the constraints. -/
theorem Pattern.constraints_in_sequence [RegexEngine] :
    (∀ (p : Pattern) (cs : List Pattern) {t : Tree}, t.WellFormed → ∀ {id}, id < t.size → ∀ s o,
      (cs.foldl constrain p).test t id s = o ↔ Test.Sequence ((p :: cs).map (·.test t id)) s o) ∧
    ∀ {query g capture cs q}, IsGroup query g capture cs → Pattern.parse query = .ok q →
      ∃ p ps, g.resolve = .ok p ∧ resolveAll cs = .ok ps ∧
        ∀ {t : Tree}, t.WellFormed → ∀ {id}, id < t.size → ∀ s o,
          q.test t id s = o ↔
            Test.Sequence ((enclose capture p :: ps).map (·.test t id)) s o := by
  refine ⟨fun p cs _ h _ hid => test_foldl_constrain_iff h hid p cs, fun hg hq => ?_⟩
  obtain ⟨p, ps, hp, hps, rfl⟩ := hg.parse_eq_ok hq
  exact ⟨p, ps, hp, hps, fun h _ hid => test_foldl_constrain_iff h hid _ ps⟩

/-- A noun phrase and its determiner. -/
def Query.determined : NodePhrase :=
  ⟨.anchor ⟨.label (.text "NP"), some "N"⟩,
    [.relation "<" (.anchor ⟨.label (.text "DT"), none⟩)]⟩

/-- Beside another node, which does not follow at once. -/
def Query.apart : List Phrase :=
  [.relation "$" (.anchor ⟨.any, some "V"⟩), .not (.relation "." (.anchor ⟨.sameAs "V", none⟩))]

def Pattern.determinedApart : Pattern :=
  .node .any
    [.related .self (.capture (.group (.node (.capture (.label "NP") "N")
        [.related .child (.ofAnchor (.label "DT"))])) "G"),
      .related .sibling (.ofAnchor (.capture .any "V")),
      .not (.related .nextLeaf (.ofAnchor (.sameAs "V")))]

theorem Query.isGroup_determined :
    IsGroup "\x7b NP=N < DT \x7d=G $ *=V ! . =V" determined (some "G") apart where
  tokens := by decide +kernel
  group := by
    refine ⟨.anchor _, fun c hc => ?_⟩
    obtain rfl := List.mem_singleton.mp hc
    exact .single (.relation "<" (.anchor _))
  constraints := by
    intro c hc
    rcases List.mem_pair.mp hc with rfl | rfl
    · exact .single (.relation "$" (.anchor _))
    · exact .single (.not (.relation "." (.anchor _)))

theorem Pattern.constraints_in_sequence_determined :
    Tree.sentence.WellFormed ∧ 1 < Tree.sentence.size ∧
      (∀ s o, ([Pattern.not terse].foldl constrain (.optional wordy)).test .sentence 1 s = o ↔
        Test.Sequence ([Pattern.optional wordy, .not terse].map (·.test .sentence 1)) s o) ∧
      IsGroup "\x7b NP=N < DT \x7d=G $ *=V ! . =V" determined (some "G") apart ∧
      Pattern.parse "\x7b NP=N < DT \x7d=G $ *=V ! . =V" = .ok determinedApart ∧
      ∃ p ps, determined.resolve = .ok p ∧ resolveAll apart = .ok ps ∧
        ∀ s o, determinedApart.test .sentence 1 s = o ↔
          Test.Sequence ((enclose (some "G") p :: ps).map (·.test .sentence 1)) s o := by
  have h : Tree.sentence.WellFormed := Tree.sentence_wellFormed
  have hid : 1 < Tree.sentence.size := by decide
  have hparse : Pattern.parse "\x7b NP=N < DT \x7d=G $ *=V ! . =V" = .ok determinedApart := by
    decide +kernel
  obtain ⟨hfold, hquery⟩ := constraints_in_sequence
  obtain ⟨p, ps, hp, hps, htest⟩ := hquery isGroup_determined hparse
  exact ⟨h, hid, hfold _ _ h hid, isGroup_determined, hparse, p, ps, hp, hps, htest h hid⟩

end TreeQuery
