import TreeQuery.Proofs.Pattern.Rewriting
import TreeQuery.Proofs.Query.Printed

namespace TreeQuery

namespace Query

open Pattern

section

variable [RegexEngine]

/-- Whatever pattern the phrase is read as, no test tells it from `p`. -/
def Phrase.Means (ph : Phrase) (p : Pattern) : Prop :=
  ∀ q, ph.resolve = .ok q → Equivalent q p

def NodePhrase.Means (n : NodePhrase) (p : Pattern) : Prop :=
  ∀ q, n.resolve = .ok q → Equivalent q p

def Arms.Means (a : Arms) (p : Pattern) : Prop :=
  a.toPhrase.Means p

theorem resolve_plain {a : Anchor} (ha : a.IsPlain) : a.literal.resolve = .ok a := by
  cases a with
  | any | label => rfl
  | _ => cases ha

theorem means_anchor {a : Anchor} (ha : a.IsPlain) :
    (Phrase.anchor a.literal).Means (.ofAnchor a) := by
  intro q hq
  rw [Phrase.resolve, resolve_plain ha] at hq
  cases hq
  exact .refl _

/-- What an operator's symbol is read as cannot be told from the operator. -/
theorem equivalent_of_parse {op op' : Operator} (h : Operator.parse op.symbol = .ok op')
    (p : Pattern) : Equivalent (.related op' p) (.related op p) := by
  by_cases h₁ : op = .nthChild 1
  · subst h₁
    have he : Operator.parse (Operator.nthChild 1).symbol = .ok .firstChild := by decide +kernel
    rw [he] at h
    cases h
    exact (Rewrite.firstChild p).equivalent
  · by_cases h₂ : op = .nthChild 2
    · subst h₂
      have he : Operator.parse (Operator.nthChild 2).symbol = .ok .secondChild := by
        decide +kernel
      rw [he] at h
      cases h
      exact (Rewrite.secondChild p).equivalent
    · rw [Operator.parse_symbol h₁ h₂] at h
      cases h
      exact .refl _

namespace Phrase.Means

variable {ph : Phrase} {p : Pattern}

theorem relation (h : ph.Means p) (op : Operator) :
    (Phrase.relation op.symbol ph).Means (.related op p) := by
  intro q hq
  obtain ⟨op', r, hop, hr, rfl⟩ := resolve_relation hq
  exact ((h r hr).related op').trans (equivalent_of_parse hop p)

theorem not (h : ph.Means p) : (Phrase.not ph).Means (.not p) := by
  intro q hq
  obtain ⟨r, hr, rfl⟩ := map_eq_ok.mp hq
  exact (h r hr).not

theorem optional (h : ph.Means p) : (Phrase.optional ph).Means (.optional p) := by
  intro q hq
  obtain ⟨r, hr, rfl⟩ := map_eq_ok.mp hq
  exact (h r hr).optional

theorem toNode (h : ph.Means p) : NodePhrase.Means ⟨ph, []⟩ p := by
  intro q hq
  obtain ⟨ps, r, hps, hr, rfl⟩ := NodePhrase.resolve_eq_ok.mp hq
  cases hps
  exact h r hr

end Phrase.Means

theorem NodePhrase.Means.group {head : Phrase} {cs : List Phrase} {p : Pattern}
    (h : NodePhrase.Means ⟨head, cs⟩ p) (capture : Option String) :
    (Phrase.group head cs capture).Means (enclose capture p) := by
  intro q hq
  rw [Phrase.resolve_group] at hq
  obtain ⟨r, hr, rfl⟩ := map_eq_ok.mp hq
  cases capture with
  | none => exact (h r hr).group
  | some var => exact (h r hr).group.capture var

theorem forall₂_of_resolveAll {phs : List Phrase} {cs qs : List Pattern}
    (h : List.Forall₂ Phrase.Means phs cs) (hq : resolveAll phs = .ok qs) :
    List.Forall₂ Equivalent qs cs := by
  induction h generalizing qs with
  | nil =>
    cases hq
    exact .nil
  | cons hph _ ih =>
    obtain ⟨r, rs, hr, hrs, rfl⟩ := resolveAll_cons.mp hq
    exact .cons (hph r hr) (ih hrs)

theorem means_all {phs : List Phrase} {cs : List Pattern}
    (h : List.Forall₂ Phrase.Means phs cs) : (Phrase.all phs).Means (.all cs) := by
  intro q hq
  obtain ⟨qs, hqs, rfl⟩ := map_eq_ok.mp hq
  exact .all (forall₂_of_resolveAll h hqs)

theorem means_node {a : Anchor} (ha : a.IsPlain) {phs : List Phrase} {cs : List Pattern}
    (h : List.Forall₂ Phrase.Means phs cs) :
    NodePhrase.Means ⟨.anchor a.literal, phs⟩ (.node a cs) := by
  intro q hq
  obtain ⟨ps, r, hps, hr, rfl⟩ := NodePhrase.resolve_eq_ok.mp hq
  rw [Phrase.resolve, resolve_plain ha] at hr
  cases hr
  rw [ofAnchor, foldl_constrain_node]
  exact .node a (forall₂_of_resolveAll h hps)

theorem resolveAll_append {phs phs' : List Phrase} {ps : List Pattern} :
    resolveAll (phs ++ phs') = .ok ps ↔
      ∃ qs rs, resolveAll phs = .ok qs ∧ resolveAll phs' = .ok rs ∧ ps = qs ++ rs := by
  induction phs generalizing ps with
  | nil => simp [resolveAll]
  | cons ph phs ih =>
    simp only [List.cons_append, resolveAll_cons, ih]
    constructor
    · rintro ⟨x, _, hx, ⟨qs, rs, hqs, hrs, rfl⟩, rfl⟩
      exact ⟨x :: qs, rs, ⟨x, qs, hx, hqs, rfl⟩, hrs, rfl⟩
    · rintro ⟨_, rs, ⟨x, qs, hx, hqs, rfl⟩, hrs, rfl⟩
      exact ⟨x, qs ++ rs, hx, ⟨qs, rs, hqs, hrs, rfl⟩, rfl⟩

namespace Arms

theorem resolve_toPhrase {a : Arms} {p : Pattern} : a.toPhrase.resolve = .ok p ↔
    ∃ x xs, a.first.resolve = .ok x ∧ resolveAll a.others = .ok xs ∧
      p = Query.alternatives x xs := by
  obtain ⟨first, others⟩ := a
  cases others with
  | nil => simp [toPhrase, resolveAll, Query.alternatives]
  | cons second others => exact resolve_alternatives

/-- More alternatives, after a bar. -/
def join (a b : Arms) : Arms :=
  ⟨a.first, a.others ++ b.first :: b.others⟩

theorem Means.join {a b : Arms} {p q : Pattern} (ha : a.Means p) (hb : b.Means q) :
    (a.join b).Means (.or p q) := by
  intro r hr
  obtain ⟨x, zs, hx, hzs, rfl⟩ := resolve_toPhrase.mp hr
  obtain ⟨xs, _, hxs, hmore, rfl⟩ := resolveAll_append.mp hzs
  obtain ⟨y, ys, hy, hys, rfl⟩ := resolveAll_cons.mp hmore
  have hleft := ha _ (resolve_toPhrase.mpr ⟨x, xs, hx, hxs, rfl⟩)
  have hright := hb _ (resolve_toPhrase.mpr ⟨y, ys, hy, hys, rfl⟩)
  exact (rewritten_alternatives x xs y ys).equivalent.symm.trans (hleft.or hright)

end Arms

end

namespace Level

/-- Completes a constraint with all its alternatives. -/
def take? (l : Level) (a : Arms) : Option Level :=
  if l.joining then
    match l.constraints with
    | arms :: rest => some ⟨l.scope, arms.join a :: rest, false, []⟩
    | [] => none
  else some ⟨l.scope, a :: l.constraints, false, []⟩

theorem add?_eq_take? {l : Level} (h : l.openings = []) (ph : Phrase) :
    l.add? ph = l.take? ⟨ph, []⟩ := by
  rw [add?, h, take?]
  rfl

theorem take?_of_settled {l : Level} (h : l.isSettled = true) (a : Arms) :
    l.take? a = some (l.put a) := by
  obtain ⟨scope, constraints, joining, openings⟩ := l
  obtain ⟨_, rfl, rfl⟩ := isSettled_iff.mp h
  rfl

/-- After a bar, what is read next belongs to the constraint before it. -/
theorem take?_join {l l' : Level} {a : Arms} (h : l.take? a = some l') :
    l'.scope = l.scope ∧ l'.openings = [] ∧
      ∀ b : Arms, { l' with joining := true }.take? b = l.take? (a.join b) := by
  unfold take? at h ⊢
  by_cases hj : l.joining = true
  · simp only [hj, ↓reduceIte] at h ⊢
    cases hc : l.constraints with
    | nil =>
      rw [hc] at h
      cases h
    | cons arms rest =>
      rw [hc] at h
      cases h
      simp [Arms.join]
  · simp only [hj, Bool.false_eq_true, ↓reduceIte] at h ⊢
    cases h
    simp

end Level

namespace Reading

def run (s : Reading) (ts : List Token) : Option Reading :=
  ts.foldlM next? s

theorem run_nil {s s' : Reading} : s.run [] = some s' ↔ s' = s := by
  rw [run, List.foldlM_nil]
  exact ⟨fun h => (Option.some.inj h).symm, fun h => congrArg some h.symm⟩

theorem run_cons {s s' : Reading} {tok : Token} {ts : List Token} :
    s.run (tok :: ts) = some s' ↔ ∃ mid, s.next? tok = some mid ∧ mid.run ts = some s' := by
  rw [run, List.foldlM_cons]
  exact Option.bind_eq_some_iff

theorem run_append {s s' : Reading} {ts us : List Token} :
    s.run (ts ++ us) = some s' ↔ ∃ mid, s.run ts = some mid ∧ mid.run us = some s' := by
  rw [run, List.foldlM_append]
  exact Option.bind_eq_some_iff

theorem run_singleton {s s' : Reading} {tok : Token} :
    s.run [tok] = some s' ↔ s.next? tok = some s' := by
  rw [run_cons]
  constructor
  · rintro ⟨mid, hmid, h⟩
    rw [run_nil.mp h, hmid]
  · exact fun h => ⟨s', h, run_nil.mpr rfl⟩

theorem next?_anchor {s s' : Reading} {a : Literal} (h : s.next? (.anchor a) = some s') :
    s.level.wantsConstraint = false ∧
      ∃ l, s.level.addNode? (.anchor a) = some l ∧ s' = ⟨l, s.outer⟩ := by
  rw [next?] at h
  split at h
  · cases h
  · rename_i hw
    obtain ⟨l, hl, rfl⟩ := Option.map_eq_some_iff.mp h
    exact ⟨by simpa using hw, l, hl, rfl⟩

theorem openWith_eq_some {s s' : Reading} {o : Opening} (h : s.openWith o = some s') :
    s.level.wantsConstraint = true ∧ s' = ⟨s.level.push o, s.outer⟩ := by
  rw [openWith] at h
  split at h
  · rename_i hw
    cases h
    exact ⟨hw, rfl⟩
  · cases h

theorem next?_bar {s s' : Reading} (h : s.next? .bar = some s') :
    s.level.constraints ≠ [] ∧ s' = ⟨{ s.level with joining := true }, s.outer⟩ := by
  rw [next?] at h
  split at h
  · rename_i hset
    cases h
    rw [Bool.and_eq_true] at hset
    exact ⟨by simpa using hset.2, rfl⟩
  · cases h

theorem next?_openBracket {s s' : Reading} (h : s.next? .openBracket = some s') :
    s.level.wantsConstraint = true ∧ s' = ⟨.start .bracket, s.level :: s.outer⟩ := by
  rw [next?] at h
  split at h
  · rename_i hw
    cases h
    exact ⟨hw, rfl⟩
  · cases h

theorem next?_closeBracket {l above : Level} {outer : List Level} {s' : Reading}
    (hscope : l.scope = .bracket) (h : next? ⟨l, above :: outer⟩ .closeBracket = some s') :
    ∃ l', above.add? (.all l.phrases) = some l' ∧ s' = ⟨l', outer⟩ := by
  simp only [next?, hscope] at h
  split at h
  · obtain ⟨l', hl', rfl⟩ := Option.map_eq_some_iff.mp h
    exact ⟨l', hl', rfl⟩
  · cases h

theorem next?_closeBrace {l above : Level} {outer : List Level} {s' : Reading} {head : Phrase}
    {capture : Option String} (hscope : l.scope = .node head)
    (h : next? ⟨l, above :: outer⟩ (.closeBrace capture) = some s') :
    ∃ l', above.addNode? (.group head l.phrases capture) = some l' ∧ s' = ⟨l', outer⟩ := by
  simp only [next?, hscope] at h
  split at h
  · obtain ⟨l', hl', rfl⟩ := Option.map_eq_some_iff.mp h
    exact ⟨l', hl', rfl⟩
  · cases h

end Reading

section

variable [RegexEngine]

/-- The tokens of `p` are read as one phrase, which is then added to the level. -/
def AddedBy (add : Level → Phrase → Option Level) (p : Pattern) (s s' : Reading) : Prop :=
  ∃ ph l, ph.Means p ∧ add s.level ph = some l ∧ s' = ⟨l, s.outer⟩

/-- What reading the tokens of the pattern comes to, if they can be read, wherever they stand. -/
structure Reads (p : Pattern) : Prop where
  /-- Alternatives are read one by one, and only if nothing has been put before them. -/
  constraint : ∀ {s s' : Reading}, s.level.wantsConstraint = true → s.level.openings = [] →
    s.run p.tokens = some s' →
      ∃ a l, a.Means p ∧ s.level.take? a = some l ∧ s' = ⟨l, s.outer⟩
  unary : p.isOr = false → ∀ {s s' : Reading}, s.level.wantsConstraint = true →
    s.run p.tokens = some s' → AddedBy Level.add? p s s'
  item : p.isItem = true → ∀ {s s' : Reading}, s.level.wantsConstraint = false →
    s.run p.tokens = some s' → AddedBy Level.addNode? p s s'
  /-- A bar after a node would go to its last constraint, if it has any. -/
  node : ∀ {outer : List Level} {s' : Reading},
    Reading.run ⟨.start .headless, outer⟩ p.tokens = some s' →
      ∃ head l, s' = ⟨l, outer⟩ ∧ l.scope = .node head ∧ NodePhrase.Means ⟨head, l.phrases⟩ p ∧
        (p.isConstrained = false → l.constraints = [])

theorem constraint_of_unary {p : Pattern} {s s' : Reading} (hs : s.level.openings = [])
    (h : AddedBy Level.add? p s s') :
    ∃ a l, a.Means p ∧ s.level.take? a = some l ∧ s' = ⟨l, s.outer⟩ := by
  obtain ⟨ph, l, hph, hl, rfl⟩ := h
  exact ⟨⟨ph, []⟩, l, hph, by rw [← Level.add?_eq_take? hs, hl], rfl⟩

/-- What can stand as a constraint only. -/
theorem reads_of_unary {p : Pattern} (hitem : p.isItem = false)
    (h : ∀ {s s' : Reading}, s.run p.tokens = some s' →
      s.level.wantsConstraint = true ∧ AddedBy Level.add? p s s') : Reads p where
  constraint _ hs hrun := constraint_of_unary hs (h hrun).2
  unary _ _ _ _ hrun := (h hrun).2
  item hi := by
    rw [hitem] at hi
    cases hi
  node hrun := by
    obtain ⟨hw, _⟩ := h hrun
    cases hw

/-- What stands in braces is read in the same way everywhere. -/
theorem reads_of_braced {p : Pattern}
    (h : ∀ {s s' : Reading}, s.run p.tokens = some s' → AddedBy Level.addNode? p s s') :
    Reads p := by
  have hadd {s s' : Reading} (hw : s.level.wantsConstraint = true)
      (hrun : s.run p.tokens = some s') : AddedBy Level.add? p s s' := by
    obtain ⟨ph, l, hph, hl, he⟩ := h hrun
    rw [Level.addNode?_of_opened (Level.wantsConstraint_iff.mp hw).1] at hl
    exact ⟨ph, l, hph, hl, he⟩
  refine ⟨fun hw hs hrun => constraint_of_unary hs (hadd hw hrun), fun _ _ _ hw hrun =>
    hadd hw hrun, fun _ _ _ _ hrun => h hrun, fun hrun => ?_⟩
  obtain ⟨ph, l, hph, hl, rfl⟩ := h hrun
  cases hl
  exact ⟨ph, _, rfl, rfl, hph.toNode, fun _ => rfl⟩

theorem run_constraints {cs : List Pattern} (h : ∀ c ∈ cs, Reads c) {s s' : Reading}
    (hs : s.level.isSettled = true) (hrun : s.run (Pattern.tokensAll cs) = some s') :
    ∃ as : List Arms, List.Forall₂ Arms.Means as cs ∧
      s' = ⟨{ s.level with constraints := as.reverse ++ s.level.constraints }, s.outer⟩ := by
  induction cs generalizing s with
  | nil => exact ⟨[], .nil, Reading.run_nil.mp hrun⟩
  | cons c cs ih =>
    obtain ⟨hc, hcs⟩ := List.forall_mem_cons.mp h
    obtain ⟨mid, hmid, hrest⟩ := Reading.run_append.mp hrun
    obtain ⟨_, ho, _⟩ := Level.isSettled_iff.mp hs
    obtain ⟨a, l, ha, hl, rfl⟩ :=
      hc.constraint (Level.wantsConstraint_of_settled hs) ho hmid
    rw [Level.take?_of_settled hs] at hl
    cases hl
    have hput : (⟨s.level.put a, s.outer⟩ : Reading).level.isSettled = true := hs
    obtain ⟨as, has, rfl⟩ := ih hcs hput hrest
    refine ⟨a :: as, .cons ha has, ?_⟩
    simp [Level.put]

theorem phrases_of_arms {as : List Arms} {cs : List Pattern}
    (h : List.Forall₂ Arms.Means as cs) {l : Level} (hl : l.constraints = as.reverse ++ []) :
    List.Forall₂ Phrase.Means l.phrases cs := by
  rw [Level.phrases, hl, List.append_nil, List.reverse_reverse, List.forall₂_map_left_iff]
  exact h

/-- A node in braces becomes one phrase. -/
theorem Reads.braced {p : Pattern} (h : Reads p) (capture : Option String) {s s' : Reading}
    (hrun : s.run (inBraceTokens capture p.tokens) = some s') :
    AddedBy Level.addNode? (enclose capture p) s s' := by
  obtain ⟨mid, hmid, hclose⟩ := Reading.run_append.mp hrun
  obtain ⟨start, hstart, hinside⟩ := Reading.run_cons.mp hmid
  cases hstart
  obtain ⟨head, l, rfl, hscope, hmeans, _⟩ := h.node hinside
  obtain ⟨above, habove, rfl⟩ :=
    Reading.next?_closeBrace hscope (Reading.run_singleton.mp hclose)
  exact ⟨_, above, hmeans.group capture, habove, rfl⟩

theorem reads_node {a : Anchor} (ha : a.IsPlain) {cs : List Pattern} (h : ∀ c ∈ cs, Reads c) :
    Reads (.node a cs) := by
  have hrefused {s s' : Reading} (hw : s.level.wantsConstraint = true)
      (hrun : s.run (node a cs).tokens = some s') : False := by
    obtain ⟨mid, hmid, _⟩ := Reading.run_cons.mp hrun
    rw [(Reading.next?_anchor hmid).1] at hw
    cases hw
  refine ⟨fun hw _ hrun => absurd hrun (hrefused hw), fun _ _ _ hw hrun =>
    absurd hrun (hrefused hw), fun hi _ _ hw hrun => ?_, fun hrun => ?_⟩
  · cases cs with
    | nil =>
      obtain ⟨_, l, hl, rfl⟩ := Reading.next?_anchor (Reading.run_singleton.mp hrun)
      exact ⟨_, l, means_anchor ha, hl, rfl⟩
    | cons c cs => cases hi
  · obtain ⟨mid, hmid, hrest⟩ := Reading.run_cons.mp hrun
    obtain ⟨_, l, hl, rfl⟩ := Reading.next?_anchor hmid
    cases hl
    obtain ⟨as, has, rfl⟩ := run_constraints h rfl hrest
    refine ⟨_, _, rfl, rfl, means_node ha (phrases_of_arms has rfl), fun hc => ?_⟩
    cases cs with
    | nil =>
      cases has
      rfl
    | cons c cs => cases hc

theorem reads_related {p : Pattern} (h : Reads p) (op : Operator) : Reads (.related op p) := by
  refine reads_of_unary rfl fun {s s'} hrun => ?_
  obtain ⟨mid, hmid, hoperand⟩ := Reading.run_cons.mp hrun
  obtain ⟨hw, rfl⟩ := Reading.openWith_eq_some hmid
  have hnode : (s.level.push (.relation op.symbol)).wantsConstraint = false := by
    rw [Bool.eq_false_iff]
    intro hwants
    cases (Level.wantsConstraint_iff.mp hwants).2 _ rfl
  have hadd : ∀ ph, (s.level.push (.relation op.symbol)).addNode? ph =
      s.level.add? (.relation op.symbol ph) :=
    Level.addNode?_of_opened (Level.wantsConstraint_iff.mp hw).1
  refine ⟨hw, ?_⟩
  split at hoperand
  · rename_i hitem
    obtain ⟨ph, l, hph, hl, rfl⟩ := h.item hitem hnode hoperand
    exact ⟨_, l, hph.relation op, (hadd ph).symm.trans hl, rfl⟩
  · obtain ⟨ph, l, hph, hl, rfl⟩ := h.braced none hoperand
    have hbraces : ph.Means p := fun q hq => (hph q hq).trans (Rewrite.group p).equivalent
    exact ⟨_, l, hbraces.relation op, (hadd ph).symm.trans hl, rfl⟩

/-- What is put before something that is read as one phrase belongs to all of it. -/
theorem reads_opened {o : Opening} (ho : o.isRelation = false) {p q : Pattern}
    (hor : p.isOr = false) (h : Reads p) (hitem : q.isItem = false)
    (htokens : q.tokens = o.token :: p.tokens)
    (hmeans : ∀ ph : Phrase, ph.Means p → (o.complete ph).Means q) : Reads q := by
  refine reads_of_unary hitem fun {s s'} hrun => ?_
  rw [htokens] at hrun
  obtain ⟨mid, hmid, hoperand⟩ := Reading.run_cons.mp hrun
  have hopen : s.next? o.token = s.openWith o := by cases o <;> rfl
  rw [hopen] at hmid
  obtain ⟨hw, rfl⟩ := Reading.openWith_eq_some hmid
  obtain ⟨ph, l, hph, hl, rfl⟩ := h.unary hor (Level.wantsConstraint_push hw ho) hoperand
  exact ⟨hw, _, l, hmeans ph hph, hl, rfl⟩

theorem reads_not {p : Pattern} (hor : p.isOr = false) (h : Reads p) : Reads (.not p) :=
  reads_opened (o := .not) rfl hor h rfl rfl fun _ hph => hph.not

theorem reads_optional {p : Pattern} (hor : p.isOr = false) (h : Reads p) :
    Reads (.optional p) :=
  reads_opened (o := .optional) rfl hor h rfl rfl fun _ hph => hph.optional

theorem reads_all {cs : List Pattern} (h : ∀ c ∈ cs, Reads c) : Reads (.all cs) := by
  refine reads_of_unary rfl fun {s s'} hrun => ?_
  obtain ⟨mid, hmid, hclose⟩ := Reading.run_append.mp hrun
  obtain ⟨start, hstart, hinside⟩ := Reading.run_cons.mp hmid
  obtain ⟨hw, rfl⟩ := Reading.next?_openBracket hstart
  obtain ⟨as, has, rfl⟩ := run_constraints h rfl hinside
  obtain ⟨l, hl, rfl⟩ := Reading.next?_closeBracket rfl (Reading.run_singleton.mp hclose)
  exact ⟨hw, _, l, means_all (phrases_of_arms has rfl), hl, rfl⟩

/-- The bar joins what stands on either side; a node without constraints has nothing to join. -/
theorem reads_or {p q : Pattern} (hc : p.isConstrained = false) (hp : Reads p) (hq : Reads q) :
    Reads (.or p q) := by
  refine ⟨fun {s s'} hw ho hrun => ?_, nofun, nofun, fun hrun => ?_⟩
  · obtain ⟨mid, hmid, hrest⟩ := Reading.run_append.mp hrun
    obtain ⟨a, l, ha, hl, rfl⟩ := hp.constraint hw ho hmid
    obtain ⟨bar, hbar, hright⟩ := Reading.run_cons.mp hrest
    obtain ⟨_, rfl⟩ := Reading.next?_bar hbar
    obtain ⟨hscope, hopenings, hjoin⟩ := Level.take?_join hl
    have hjoining : (⟨{ l with joining := true }, s.outer⟩ : Reading).level.wantsConstraint =
        true := by
      refine Level.wantsConstraint_iff.mpr ⟨?_, fun o hm => ?_⟩
      · exact hscope.trans_ne (Level.wantsConstraint_iff.mp hw).1
      · rw [hopenings] at hm
        cases hm
    obtain ⟨b, l', hb, hl', rfl⟩ := hq.constraint hjoining hopenings hright
    exact ⟨a.join b, l', ha.join hb, (hjoin b).symm.trans hl', rfl⟩
  · obtain ⟨mid, hmid, hrest⟩ := Reading.run_append.mp hrun
    obtain ⟨head, l, rfl, _, _, hnone⟩ := hp.node hmid
    obtain ⟨bar, hbar, _⟩ := Reading.run_cons.mp hrest
    exact absurd (hnone hc) (Reading.next?_bar hbar).1

theorem reads_group {p : Pattern} (h : Reads p) : Reads (.group p) :=
  reads_of_braced fun hrun => h.braced none hrun

theorem reads_capture {p : Pattern} (h : Reads p.inner) (var : String) :
    Reads (.capture p var) := by
  refine reads_of_braced fun hrun => ?_
  rw [tokens_capture] at hrun
  obtain ⟨ph, l, hph, hl, rfl⟩ := h.braced (some var) hrun
  have hinner : Equivalent (enclose (some var) p.inner) (.capture p var) := by
    cases p with
    | group p => exact .refl _
    | _ => exact (Rewrite.group _).equivalent.capture var
  exact ⟨ph, l, fun q hq => (hph q hq).trans hinner, hl, rfl⟩

theorem reads_of_tidy {p : Pattern} (h : p.Tidy) : Reads p := by
  induction h with
  | node ha _ ih => exact reads_node ha ih
  | related op _ ih => exact reads_related ih op
  | not hor _ ih => exact reads_not hor ih
  | or hc _ _ ihp ihq => exact reads_or hc ihp ihq
  | group _ ih => exact reads_group ih
  | all _ ih => exact reads_all ih
  | optional hor _ ih => exact reads_optional hor ih
  | capture _ _ ih => exact reads_capture ih _

theorem known_all {phs : List Phrase}
    (h : ∀ ph ∈ phs, ∀ q, ph.resolve = .ok q → ∀ tok ∈ ph.tokens, tok.Known) {ps : List Pattern}
    (hr : resolveAll phs = .ok ps) :
    (∀ tok ∈ Query.tokensAll phs, tok.Known) ∧ ∀ tok ∈ tokensBarred phs, tok.Known := by
  induction phs generalizing ps with
  | nil => exact ⟨fun _ hm => absurd hm List.not_mem_nil, fun _ hm => absurd hm List.not_mem_nil⟩
  | cons ph phs ih =>
    obtain ⟨q, qs, hq, hqs, rfl⟩ := resolveAll_cons.mp hr
    obtain ⟨hph, hphs⟩ := List.forall_mem_cons.mp h
    obtain ⟨hall, hbarred⟩ := ih hphs hqs
    exact ⟨List.forall_mem_append.mpr ⟨hph q hq, hall⟩,
      List.forall_mem_cons.mpr ⟨trivial, List.forall_mem_append.mpr ⟨hph q hq, hbarred⟩⟩⟩

/-- If a phrase stands for a pattern, all its operators exist. -/
theorem known_of_resolve {r : Role} {ph : Phrase} (h : Shaped r ph) :
    ∀ q, ph.resolve = .ok q → ∀ tok ∈ ph.tokens, tok.Known := by
  induction h with
  | group capture _ _ ihhead ihcs =>
    intro q hq
    rw [Phrase.resolve_group] at hq
    obtain ⟨p, hp, rfl⟩ := map_eq_ok.mp hq
    obtain ⟨ps, x, hps, hx, rfl⟩ := NodePhrase.resolve_eq_ok.mp hp
    have hinside := List.forall_mem_append.mpr ⟨ihhead x hx, (known_all ihcs hps).1⟩
    exact List.forall_mem_append.mpr ⟨List.forall_mem_cons.mpr ⟨trivial, hinside⟩,
      List.forall_mem_singleton.mpr trivial⟩
  | anchor a => exact fun _ _ => List.forall_mem_singleton.mpr trivial
  | bracedItem _ ih | bracedUnary _ ih | single _ ih => exact ih
  | relation symbol _ ih =>
    intro q hq
    obtain ⟨op, p, hop, hp, rfl⟩ := resolve_relation hq
    exact List.forall_mem_cons.mpr ⟨⟨op, hop⟩, ih p hp⟩
  | not _ ih | optional _ ih =>
    intro q hq
    obtain ⟨p, hp, rfl⟩ := map_eq_ok.mp hq
    exact List.forall_mem_cons.mpr ⟨trivial, ih p hp⟩
  | all _ _ ih =>
    intro q hq
    obtain ⟨ps, hps, rfl⟩ := map_eq_ok.mp hq
    exact List.forall_mem_append.mpr ⟨List.forall_mem_cons.mpr ⟨trivial, (known_all ih hps).1⟩,
      List.forall_mem_singleton.mpr trivial⟩
  | alternatives _ _ ih ihs =>
    intro q hq
    obtain ⟨x, xs, hx, hxs, rfl⟩ := resolve_alternatives.mp hq
    exact List.forall_mem_append.mpr ⟨ih x hx, (known_all ihs hxs).2⟩

theorem NodePhrase.known_of_resolve {n : NodePhrase} (hn : n.Shaped) {q : Pattern}
    (hq : n.resolve = .ok q) : ∀ tok ∈ n.tokens, tok.Known := by
  obtain ⟨ps, x, hps, hx, rfl⟩ := NodePhrase.resolve_eq_ok.mp hq
  exact List.forall_mem_append.mpr ⟨Query.known_of_resolve hn.head x hx,
    (known_all (fun c hc => Query.known_of_resolve (hn.constraints c hc)) hps).1⟩

theorem means_of_tokens {p : Pattern} (hp : p.Tidy) {n : NodePhrase}
    (h : NodePhrase.ofTokens? p.tokens = some n) : n.Means p := by
  obtain ⟨s, hrun, hfin⟩ := Option.bind_eq_some_iff.mp h
  obtain ⟨head, l, rfl, hscope, hmeans, _⟩ := (reads_of_tidy hp).node hrun
  simp only [Reading.finish?, hscope] at hfin
  split at hfin
  · cases hfin
    exact hmeans
  · cases hfin

end

end Query

namespace Pattern

open Query

/-- No test tells a tidy pattern from what its text is read as, if that is read at all. -/
theorem test_of_parse_toText [Unicode.Tables] [RegexEngine] {p q : Pattern} (hp : p.Tidy)
    (h : Pattern.parse p.toText = .ok q)
    {t : Tree} (ht : t.WellFormed) {id : NodeId} (hid : id < t.size) (s : Bindings) :
    q.test t id s = p.test t id s := by
  unfold Pattern.parse at h
  split at h
  · rename_i n hn
    obtain ⟨ts, hts, hn⟩ := Option.bind_eq_some_iff.mp hn
    obtain ⟨hshaped, htokens⟩ := NodePhrase.ofTokens?_eq_some.mp hn
    rw [toText, String.toList_ofList] at hts
    have hknown := htokens ▸ NodePhrase.known_of_resolve hshaped h
    rw [hp.tokens_of_cut? hts hknown] at hn
    exact congrFun (means_of_tokens hp hn q h ht hid) s
  · cases h

/-- Alternatives that nest to the left, a first child that is asked for by its number, and a node
that is captured without braces. -/
def nested : Pattern :=
  .node (.label "S")
    [.or (.or (.related (.nthChild 1) (.ofAnchor (.label "DT")))
        (.not (.related .parent (.ofAnchor .any)))) (.related .nextLeaf (.ofAnchor .any)),
      .related .child (.capture (.node (.label "VP") [.related .child (.ofAnchor .any)]) "V")]

/-- The same as it is read. -/
def flattened : Pattern :=
  .node (.label "S")
    [.or (.related .firstChild (.ofAnchor (.label "DT")))
        (.or (.not (.related .parent (.ofAnchor .any))) (.related .nextLeaf (.ofAnchor .any))),
      .related .child
        (.capture (.group (.node (.label "VP") [.related .child (.ofAnchor .any)])) "V")]

theorem nested_tidy : nested.Tidy := by
  have hany : (ofAnchor .any).Tidy := .node trivial nofun
  have hs : Anchor.IsPlain (.label "S") := by decide +kernel
  have hdt : Anchor.IsPlain (.label "DT") := by decide +kernel
  have hvp : Anchor.IsPlain (.label "VP") := by decide +kernel
  have hv : IsVar "V" := ⟨'V', [], by decide +kernel, rfl, nofun⟩
  have hfirst : (Pattern.or (.related (.nthChild 1) (.ofAnchor (.label "DT")))
      (.not (.related .parent (.ofAnchor .any)))).Tidy :=
    .or rfl (.related _ (.node hdt nofun)) (.not rfl (.related _ hany))
  have hphrase : (node (.label "VP") [.related .child (.ofAnchor .any)]).Tidy :=
    .node hvp (List.forall_mem_singleton.mpr (.related _ hany))
  exact .node hs (List.forall_mem_cons.mpr ⟨.or rfl hfirst (.related _ hany),
    List.forall_mem_singleton.mpr (.related _ (.capture hv hphrase))⟩)

theorem test_of_parse_toText_nested :
    nested.Tidy ∧ Pattern.parse nested.toText = .ok flattened ∧ nested ≠ flattened ∧
      flattened.test .sentence 0 .empty = nested.test .sentence 0 .empty :=
  have hparse : Pattern.parse nested.toText = .ok flattened := by decide +kernel
  ⟨nested_tidy, hparse, by decide,
    test_of_parse_toText nested_tidy hparse Tree.sentence_wellFormed (by decide) .empty⟩

/-- What is printed with a bar may be printed of another pattern as well: of one in which the bar
joins only the negation, only the option, or only the last constraint of a node. -/
theorem print_regrouped [Unicode.Tables] [RegexEngine] (p q c : Pattern) (a : Anchor)
    (cs : List Pattern) : (not (or p q)).print = (or (not p) q).print ∧
      (optional (or p q)).print = (or (optional p) q).print ∧
      (or (node a (cs ++ [c])) q).print = (node a (cs ++ [or c q])).print := by
  have happend (d : Pattern) : printAll (cs ++ [d]) = printAll cs ++ ' ' :: d.print := by
    induction cs with
    | nil => simp [printAll]
    | cons c' cs ih => simp [printAll, ih]
  refine ⟨by simp [print], by simp [print], ?_⟩
  rw [print, print, print, happend, happend, print]
  simp

/-- The negation of two alternatives is read as the negation of the first or the second, which holds
of a node that the pattern does not hold of. -/
theorem not_test_of_parse_toText :
    ∃ p q, p = node .any [.not (.or (.related .child (.ofAnchor (.label "NP")))
        (.related .child (.ofAnchor (.label "VBD"))))] ∧
      p.toText = "* ! < NP | < VBD" ∧ Pattern.parse p.toText = .ok q ∧
      Tree.sentence.WellFormed ∧ 4 < Tree.sentence.size ∧
      p.test .sentence 4 .empty = ⟨.ok false, .empty⟩ ∧
      q.test .sentence 4 .empty = ⟨.ok true, .empty⟩ := by
  refine ⟨_, node .any [.or (.not (.related .child (.ofAnchor (.label "NP"))))
      (.related .child (.ofAnchor (.label "VBD")))], rfl, by decide +kernel, by decide +kernel,
    Tree.sentence_wellFormed, by decide, ?_, ?_⟩
  · rfl
  · rfl

end Pattern

end TreeQuery
