import TreeQuery.Proofs.Outcomes
import TreeQuery.Proofs.Pattern.Symbols
import TreeQuery.Proofs.Query.Parsing
import TreeQuery.Query.Reader
import TreeQuery.Regex.Engine
import TreeQuery.Unicode.Version15

namespace TreeQuery.Query

open Text Grammar

/-- What is looked at once a text is known to be a query. -/
inductive Check
  | operator (symbol : String)
  | regex (source : String) (anchored : Bool)
deriving DecidableEq

mutual

/-- In the order of the text, but for the constraints of a node, which come before its head. -/
def QueryTree.checks : QueryTree → List Check
  | .node .node _ (head :: constraints) => QueryTree.checksAll constraints ++ QueryTree.checks head
  | .node .operator symbol _ => [.operator symbol]
  | .node .regex _ (.node .regexBody body _ :: unanchored) =>
    [.regex (.ofList (Quoted.unescapeSlashes body.toList)) unanchored.isEmpty]
  | .node _ _ parts => QueryTree.checksAll parts

def QueryTree.checksAll : List QueryTree → List Check
  | [] => []
  | t :: ts => QueryTree.checks t ++ QueryTree.checksAll ts

end

def Value.checks : Value → List Check
  | text _ => []
  | regex source anchored => [.regex source anchored]

def Base.checks : Base → List Check
  | label v | word v | category v => v.checks
  | any | sameAs _ | differentFrom _ => []

mutual

def Phrase.checks : Phrase → List Check
  | .anchor a => a.base.checks
  | .group head constraints _ => Phrase.checksAll constraints ++ head.checks
  | .relation symbol operand => .operator symbol :: operand.checks
  | .not p => p.checks
  | .optional p => p.checks
  | .all members => Phrase.checksAll members
  | .alternatives first second others =>
    first.checks ++ (second.checks ++ Phrase.checksAll others)

def Phrase.checksAll : List Phrase → List Check
  | [] => []
  | p :: ps => p.checks ++ Phrase.checksAll ps

end

def NodePhrase.checks (n : NodePhrase) : List Check :=
  Phrase.checksAll n.constraints ++ n.head.checks

namespace QueryTree

theorem checks_of_value? {t : QueryTree} {v : Value} (h : t.value? = some v) :
    t.checks = v.checks := by
  unfold value? at h
  split at h
  all_goals
    cases h
  all_goals
    simp [checks, checksAll, Value.checks]

theorem checks_of_name? {t : QueryTree} {v : String} (h : t.name? = some v) : t.checks = [] := by
  unfold name? at h
  split at h
  · simp [checks, checksAll]
  · cases h

theorem checks_of_base? {t : QueryTree} {b : Base} (h : t.base? = some b) :
    t.checks = b.checks := by
  unfold base? at h
  split at h
  case h_1 =>
    cases h
    simp [checks, checksAll, Base.checks]
  case h_6 =>
    obtain ⟨v, hv, he⟩ := Option.map_eq_some_iff.mp h
    subst b
    exact checks_of_value? hv
  case h_2 | h_3 =>
    obtain ⟨v, hv, he⟩ := Option.map_eq_some_iff.mp h
    subst b
    simp [checks, checksAll, Base.checks, checks_of_value? hv]
  case h_4 | h_5 =>
    obtain ⟨v, hv, he⟩ := Option.map_eq_some_iff.mp h
    subst b
    simp [checks, checksAll, Base.checks, checks_of_name? hv]

theorem checks_of_capture? {ts : List QueryTree} {c : Option String} (h : capture? ts = some c) :
    checksAll ts = [] := by
  unfold capture? at h
  split at h
  · rfl
  · rename_i t
    obtain ⟨v, hv, _⟩ := Option.map_eq_some_iff.mp h
    unfold captured? at hv
    split at hv
    · simp [checks, checksAll, checks_of_name? hv]
    · cases hv
  · cases h

theorem checks_of_literal? {t : QueryTree} {l : Literal} (h : t.literal? = some l) :
    t.checks = l.base.checks := by
  unfold literal? at h
  split at h
  · obtain ⟨b, hb, h⟩ := Option.bind_eq_some_iff.mp h
    obtain ⟨c, hc, h⟩ := Option.bind_eq_some_iff.mp h
    cases h
    simp [checks, checksAll, checks_of_base? hb, checks_of_capture? hc]
  · cases h

theorem checks_of_joined? {ps : List Phrase} {p : Phrase} (h : joined? ps = some p) :
    Phrase.checksAll ps = p.checks := by
  match ps, h with
  | [q], h =>
    cases h
    simp [Arms.toPhrase, Phrase.checksAll]
  | first :: second :: others, h =>
    cases h
    simp [Arms.toPhrase, Phrase.checks, Phrase.checksAll]

mutual

theorem checks_of_node? (t : QueryTree) {n : NodePhrase} (h : node? t = some n) :
    t.checks = n.checks := by
  match t, h with
  | .node .node _ (head :: constraints), h =>
    rw [node?] at h
    obtain ⟨p, hp, h⟩ := Option.bind_eq_some_iff.mp h
    obtain ⟨ps, hps, h⟩ := Option.bind_eq_some_iff.mp h
    cases h
    rw [checks, checks_of_constraints? constraints hps, checks_of_item? head hp]
    rfl

theorem checks_of_braced? (ts : List QueryTree) {p : Phrase} (h : braced? ts = some p) :
    checksAll ts = p.checks := by
  match ts, h with
  | t :: ts, h =>
    rw [braced?] at h
    obtain ⟨n, hn, h⟩ := Option.bind_eq_some_iff.mp h
    obtain ⟨c, hc, h⟩ := Option.bind_eq_some_iff.mp h
    cases h
    rw [checksAll, checks_of_node? t hn, checks_of_capture? hc, List.append_nil, Phrase.checks]
    rfl

theorem checks_of_item? (t : QueryTree) {p : Phrase} (h : item? t = some p) :
    t.checks = p.checks := by
  match t, h with
  | .node .group _ parts, h =>
    rw [item?] at h
    simp [checks, checks_of_braced? parts h]
  | .node .bareNode _ [a], h =>
    rw [item?] at h
    obtain ⟨l, hl, he⟩ := Option.map_eq_some_iff.mp h
    subst p
    simp [checks, checksAll, checks_of_literal? hl, Phrase.checks]
  | .node .anchor text parts, h =>
    rw [item?] at h
    obtain ⟨l, hl, he⟩ := Option.map_eq_some_iff.mp h
    subst p
    rw [checks_of_literal? hl, Phrase.checks]

theorem checks_of_unary? (t : QueryTree) {p : Phrase} (h : unary? t = some p) :
    t.checks = p.checks := by
  match t, h with
  | .node .negation _ [u], h =>
    rw [unary?] at h
    obtain ⟨q, hq, he⟩ := Option.map_eq_some_iff.mp h
    subst p
    simp [checks, checksAll, checks_of_unary? u hq, Phrase.checks]
  | .node .reluctant _ [u], h =>
    rw [unary?] at h
    obtain ⟨q, hq, he⟩ := Option.map_eq_some_iff.mp h
    subst p
    simp [checks, checksAll, checks_of_unary? u hq, Phrase.checks]
  | .node .constraintGroup _ members, h =>
    rw [unary?] at h
    obtain ⟨ps, hps, he⟩ := Option.map_eq_some_iff.mp h
    subst p
    simp [checks, checks_of_constraints? members hps, Phrase.checks]
  | .node .group _ parts, h =>
    rw [unary?] at h
    simp [checks, checks_of_braced? parts h]
  | .node .relation _ [.node .operator symbol [], operand], h =>
    rw [unary?] at h
    obtain ⟨q, hq, he⟩ := Option.map_eq_some_iff.mp h
    subst p
    simp [checks, checksAll, checks_of_item? operand hq, Phrase.checks]

theorem checks_of_arms? (ts : List QueryTree) {ps : List Phrase} (h : arms? ts = some ps) :
    checksAll ts = Phrase.checksAll ps := by
  match ts, h with
  | [], h =>
    cases h
    rfl
  | t :: ts, h =>
    rw [arms?] at h
    obtain ⟨q, hq, h⟩ := Option.bind_eq_some_iff.mp h
    obtain ⟨qs, hqs, h⟩ := Option.bind_eq_some_iff.mp h
    cases h
    rw [checksAll, checks_of_unary? t hq, checks_of_arms? ts hqs, Phrase.checksAll]

theorem checks_of_constraint? (t : QueryTree) {p : Phrase} (h : constraint? t = some p) :
    t.checks = p.checks := by
  match t, h with
  | .node .alternative _ arms, h =>
    rw [constraint?] at h
    obtain ⟨ps, hps, h⟩ := Option.bind_eq_some_iff.mp h
    simp [checks, checks_of_arms? arms hps, checks_of_joined? h]

theorem checks_of_constraints? (ts : List QueryTree) {ps : List Phrase}
    (h : constraints? ts = some ps) : checksAll ts = Phrase.checksAll ps := by
  match ts, h with
  | [], h =>
    cases h
    rfl
  | t :: ts, h =>
    rw [constraints?] at h
    obtain ⟨q, hq, h⟩ := Option.bind_eq_some_iff.mp h
    obtain ⟨qs, hqs, h⟩ := Option.bind_eq_some_iff.mp h
    cases h
    rw [checksAll, checks_of_constraint? t hq, checks_of_constraints? ts hqs, Phrase.checksAll]

end

theorem checks_of_query? {t : QueryTree} {n : NodePhrase} (h : t.query? = some n) :
    t.checks = n.checks := by
  unfold query? at h
  split at h
  · simp [checks, checksAll, checks_of_node? _ h]
  · cases h

end QueryTree

section

variable [RegexEngine]

namespace Check

/-- What is wrong with an operator or an expression, if anything is. -/
inductive Faulty : Check → QueryError → Prop
  | operator {symbol} : (∀ op, ¬Operator.Denotes symbol op) →
      Faulty (operator symbol) (.unknownOperator ⟨symbol⟩)
  | regex {source anchored} : TextRegex.compile? source anchored = none →
      Faulty (regex source anchored) (.badRegex source)

def fault? : Check → Option QueryError
  | operator symbol => error? ((Operator.parse symbol).mapError .unknownOperator)
  | regex source anchored =>
    match TextRegex.compile? source anchored with
    | some _ => none
    | none => some (.badRegex source)

omit [RegexEngine] in
theorem error?_parse (symbol : String) {e : Operator.Unknown} :
    error? (Operator.parse symbol) = some e ↔
      Operator.parse symbol = .error ⟨symbol⟩ ∧ e = ⟨symbol⟩ := by
  rw [Operator.parse]
  cases (Operator.plain? symbol).or (Operator.numbered? symbol.toList) with
  | none => simp [eq_comm]
  | some op => simp

theorem fault?_eq_some (c : Check) {e : QueryError} : c.fault? = some e ↔ c.Faulty e := by
  cases c with
  | operator symbol =>
    rw [fault?, error?_mapError, Option.map_eq_some_iff]
    constructor
    · intro ⟨u, hu, he⟩
      obtain ⟨hparse, hu⟩ := (error?_parse symbol).mp hu
      subst e u
      exact .operator (Operator.parse_eq_error.mp hparse)
    · intro h
      cases h with
      | operator hno =>
        exact ⟨_, (error?_parse symbol).mpr ⟨Operator.parse_eq_error.mpr hno, rfl⟩, rfl⟩
  | regex source anchored =>
    rw [fault?]
    constructor
    · intro h
      split at h
      · cases h
      · rename_i hnone
        cases h
        exact .regex hnone
    · intro h
      cases h with
      | regex hnone => rw [hnone]

end Check

theorem Value.error?_resolve (text : String → Anchor) (regex : TextRegex → Anchor) (v : Value) :
    error? (v.resolve text regex) = v.checks.findSome? Check.fault? := by
  cases v with
  | text s => rfl
  | regex source anchored =>
    simp only [resolve, checks, List.findSome?_cons, List.findSome?_nil, Check.fault?]
    cases TextRegex.compile? source anchored <;> rfl

theorem Literal.error?_resolve (a : Literal) :
    error? a.resolve = a.base.checks.findSome? Check.fault? := by
  rw [resolve, error?_map]
  cases a.base with
  | any | sameAs | differentFrom => rfl
  | label v => exact Value.error?_resolve _ _ v
  | word v => exact Value.error?_resolve _ _ v
  | category v => exact Value.error?_resolve _ _ v

mutual

theorem Phrase.error?_resolve : ∀ p : Phrase, error? p.resolve = p.checks.findSome? Check.fault?
  | .anchor a => by
    rw [resolve, error?_map, a.error?_resolve, checks]
  | .group head constraints capture => by
    rw [resolve, error?_bind fun _ => error?_bind (r := none) fun _ => rfl,
      error?_resolveAll constraints, error?_resolve head, checks, List.findSome?_append,
      Option.or_none]
  | .relation symbol operand => by
    rw [resolve, error?_bind fun _ => error?_bind (r := none) fun _ => rfl,
      error?_resolve operand, checks, List.findSome?_cons, Option.or_none, ← Check.fault?]
    cases (Check.operator symbol).fault? <;> rfl
  | .not p => by
    rw [resolve, error?_map, error?_resolve p, checks]
  | .optional p => by
    rw [resolve, error?_map, error?_resolve p, checks]
  | .all members => by
    rw [resolve, error?_map, error?_resolveAll members, checks]
  | .alternatives first second others => by
    rw [resolve, error?_bind fun _ => error?_bind fun _ => error?_bind (r := none) fun _ => rfl,
      error?_resolve first, error?_resolve second, error?_resolveAll others, checks,
      List.findSome?_append, List.findSome?_append, Option.or_none]

theorem Phrase.error?_resolveAll : ∀ ps : List Phrase,
    error? (resolveAll ps) = (checksAll ps).findSome? Check.fault?
  | [] => rfl
  | p :: ps => by
    rw [resolveAll, error?_bind fun _ => error?_bind (r := none) fun _ => rfl,
      error?_resolve p, error?_resolveAll ps, checksAll, List.findSome?_append, Option.or_none]

end

theorem NodePhrase.error?_resolve (n : NodePhrase) :
    error? n.resolve = n.checks.findSome? Check.fault? := by
  rw [resolve, error?_bind fun _ => error?_bind (r := none) fun _ => rfl,
    Phrase.error?_resolveAll, Phrase.error?_resolve, checks, List.findSome?_append, Option.or_none]

variable {text : String} {t : QueryTree}

theorem IsParseTree.error?_parse (h : IsParseTree text t) :
    error? (Pattern.parse text) = t.checks.findSome? Check.fault? := by
  obtain ⟨n, hn, htext⟩ := ofText?_of_parses h
  rw [Pattern.parse, htext, QueryTree.checks_of_query? hn]
  exact n.error?_resolve

/-- A text without a parse tree is no query. -/
theorem parse_of_no_tree (h : ∀ t, ¬IsParseTree text t) :
    Pattern.parse text = .error .notAQuery := by
  have hnone : NodePhrase.ofText? text.toList = none := by
    apply Option.eq_none_iff_forall_ne_some.mpr
    intro n hn
    obtain ⟨t, ht⟩ := parses_of_ofText? hn
    exact h t ht
  rw [Pattern.parse, hnone]

/-- The first that is wrong is told. -/
theorem IsParseTree.parse_eq_error (h : IsParseTree text t) {e : QueryError} :
    Pattern.parse text = .error e ↔ ∃ before c after, t.checks = before ++ c :: after ∧
      (∀ d ∈ before, ∀ f, ¬d.Faulty f) ∧ c.Faulty e := by
  rw [← error?_eq_some, h.error?_parse]
  exact findSome?_eq_some_first fun c _ e => c.fault?_eq_some

theorem IsParseTree.fails_iff (h : IsParseTree text t) :
    (∃ e, Pattern.parse text = .error e) ↔ ∃ c ∈ t.checks, ∃ e, c.Faulty e := by
  simp only [← error?_eq_some, h.error?_parse]
  exact findSome?_fails_iff fun c _ e => c.fault?_eq_some

theorem Check.Faulty.ne_notAQuery {c : Check} {e : QueryError} (h : c.Faulty e) :
    e ≠ .notAQuery := by
  cases h <;> simp

/-- A query is refused as none or for something that is wrong with it, and it is none exactly if it
has no parse tree. A parse tree is always that of a node: the fallbacks are never taken. Its query
fails exactly if an operator or an expression is wrong, and the first of these is told. -/
theorem parse_errors (text : String) :
    (∀ e, Pattern.parse text = .error e → e = .notAQuery ∨ ∃ c, Check.Faulty c e) ∧
    (Pattern.parse text = .error .notAQuery ↔ ∀ t, ¬IsParseTree text t) ∧
    ∀ t, IsParseTree text t →
      (∃ n, t.query? = some n ∧ Pattern.parse text = n.resolve) ∧
      ((∃ e, Pattern.parse text = .error e) ↔ ∃ c ∈ t.checks, ∃ e, c.Faulty e) ∧
      ∀ e, Pattern.parse text = .error e ↔ ∃ before c after, t.checks = before ++ c :: after ∧
        (∀ d ∈ before, ∀ f, ¬d.Faulty f) ∧ c.Faulty e := by
  refine ⟨fun e he => ?_, ⟨?_, parse_of_no_tree⟩,
    fun t ht => ⟨?_, ht.fails_iff, fun e => ht.parse_eq_error⟩⟩
  · by_cases hquery : ∃ t, IsParseTree text t
    · obtain ⟨t, ht⟩ := hquery
      obtain ⟨_, c, _, _, _, hc⟩ := ht.parse_eq_error.mp he
      exact .inr ⟨c, hc⟩
    · rw [parse_of_no_tree (not_exists.mp hquery)] at he
      cases he
      exact .inl rfl
  · intro h t ht
    obtain ⟨_, c, _, _, _, hc⟩ := ht.parse_eq_error.mp h
    exact hc.ne_notAQuery rfl
  · obtain ⟨n, hn, htext⟩ := ofText?_of_parses ht
    exact ⟨n, hn, by rw [Pattern.parse, htext]⟩

end

/-- The constraint of the inner node is told, though the expression before it is wrong as well. -/
theorem parse_errors_innerConstraint : ∃ t, IsParseTree "a < {/(/ % b}" t ∧
    t.checks = [.operator "<", .operator "%", .regex "(" true] ∧
    Pattern.parse "a < {/(/ % b}" = .error (.unknownOperator ⟨"%"⟩) := by
  have hchecks : (NodePhrase.ofText? "a < {/(/ % b}".toList).map NodePhrase.checks =
      some [.operator "<", .operator "%", .regex "(" true] := by
    decide +kernel
  obtain ⟨n, hn, hcs⟩ := Option.map_eq_some_iff.mp hchecks
  obtain ⟨t, ht, hquery⟩ := ofText?_eq_some.mp hn
  rw [← QueryTree.checks_of_query? hquery] at hcs
  refine ⟨t, ht, hcs, ?_⟩
  have hknown : Operator.Denotes "<" .child := Operator.parse_eq_ok.mp (by decide)
  have hunknown : ∀ op, ¬Operator.Denotes "%" op := Operator.parse_eq_error.mp (by decide)
  apply (((parse_errors _).2.2 t ht).2.2 _).mpr
  refine ⟨[.operator "<"], _, _, hcs, ?_, .operator hunknown⟩
  intro d hd f hf
  cases List.mem_singleton.mp hd
  cases hf with
  | operator hno => exact hno _ hknown

end TreeQuery.Query
