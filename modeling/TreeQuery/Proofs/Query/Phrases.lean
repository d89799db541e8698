import TreeQuery.Query.Phrase

namespace TreeQuery.Query

section Tokens

mutual

def Phrase.tokens : Phrase → List Token
  | .anchor a => [.anchor a]
  | .group head constraints capture =>
    .openBrace :: (head.tokens ++ tokensAll constraints) ++ [.closeBrace capture]
  | .relation symbol operand => .operator symbol :: operand.tokens
  | .not p => .not :: p.tokens
  | .optional p => .optional :: p.tokens
  | .all members => .openBracket :: tokensAll members ++ [.closeBracket]
  | .alternatives first second others =>
    first.tokens ++ (.bar :: second.tokens ++ tokensBarred others)

def tokensAll : List Phrase → List Token
  | [] => []
  | p :: ps => p.tokens ++ tokensAll ps

/-- Each phrase with a bar before it. -/
def tokensBarred : List Phrase → List Token
  | [] => []
  | p :: ps => .bar :: p.tokens ++ tokensBarred ps

end

def NodePhrase.tokens (n : NodePhrase) : List Token :=
  n.head.tokens ++ tokensAll n.constraints

theorem tokensBarred_append (ps qs : List Phrase) :
    tokensBarred (ps ++ qs) = tokensBarred ps ++ tokensBarred qs := by
  induction ps with
  | nil => rfl
  | cons p ps ih => rw [List.cons_append, tokensBarred, tokensBarred, ih, List.append_assoc]

theorem tokensBarred_singleton (p : Phrase) : tokensBarred [p] = .bar :: p.tokens :=
  List.append_nil _

end Tokens

/-- The places that a phrase may stand in: in braces, as a head or an operand, as one alternative of
a constraint, and as a whole constraint. -/
inductive Role
  | braced
  | item
  | unary
  | constraint

/-- The phrase may stand in the place, and so may all that it is made of in theirs. -/
inductive Shaped : Role → Phrase → Prop
  | group {head cs} (capture) : Shaped .item head → (∀ c ∈ cs, Shaped .constraint c) →
      Shaped .braced (.group head cs capture)
  | anchor (a) : Shaped .item (.anchor a)
  | bracedItem {p} : Shaped .braced p → Shaped .item p
  | bracedUnary {p} : Shaped .braced p → Shaped .unary p
  | relation {p} (symbol) : Shaped .item p → Shaped .unary (.relation symbol p)
  | not {p} : Shaped .unary p → Shaped .unary (.not p)
  | optional {p} : Shaped .unary p → Shaped .unary (.optional p)
  | all {ms} : ms ≠ [] → (∀ m ∈ ms, Shaped .constraint m) → Shaped .unary (.all ms)
  | single {p} : Shaped .unary p → Shaped .constraint p
  | alternatives {p q ps} : Shaped .unary p → (∀ r ∈ q :: ps, Shaped .unary r) →
      Shaped .constraint (.alternatives p q ps)

structure NodePhrase.Shaped (n : NodePhrase) : Prop where
  head : Query.Shaped .item n.head
  constraints : ∀ c ∈ n.constraints, Query.Shaped .constraint c

section Reading

def Arms.tokens (a : Arms) : List Token :=
  a.first.tokens ++ tokensBarred a.others

theorem Arms.toPhrase_tokens (a : Arms) : a.toPhrase.tokens = a.tokens := by
  obtain ⟨first, others⟩ := a
  cases others with
  | nil => exact (List.append_nil _).symm
  | cons second others => rfl

theorem Arms.add_tokens (a : Arms) (p : Phrase) :
    (a.add p).tokens = a.tokens ++ .bar :: p.tokens := by
  rw [tokens, add, tokensBarred_append, tokensBarred_singleton, ← List.append_assoc]
  rfl

def Arms.Shaped (a : Arms) : Prop :=
  Query.Shaped .unary a.first ∧ ∀ p ∈ a.others, Query.Shaped .unary p

theorem Arms.Shaped.toPhrase {a : Arms} (h : a.Shaped) : Query.Shaped .constraint a.toPhrase := by
  obtain ⟨first, others⟩ := a
  cases others with
  | nil => exact .single h.1
  | cons second others => exact .alternatives h.1 h.2

theorem Arms.Shaped.add {a : Arms} (h : a.Shaped) {p : Phrase} (hp : Query.Shaped .unary p) :
    (a.add p).Shaped := by
  refine ⟨h.1, fun q hq => ?_⟩
  rcases List.mem_append.mp hq with hq | hq
  · exact h.2 q hq
  · cases List.mem_singleton.mp hq
    exact hp

namespace Opening

def token : Opening → Token
  | not => .not
  | optional => .optional
  | relation symbol => .operator symbol

/-- Whether the opening calls for a node. -/
def isRelation : Opening → Bool
  | relation _ => true
  | _ => false

theorem complete_tokens (o : Opening) (p : Phrase) :
    (o.complete p).tokens = o.token :: p.tokens := by
  cases o <;> rfl

end Opening

theorem foldl_complete_tokens (os : List Opening) (p : Phrase) :
    (os.foldl (fun p o => o.complete p) p).tokens = (os.map Opening.token).reverse ++ p.tokens := by
  induction os generalizing p with
  | nil => rfl
  | cons o os ih =>
    rw [List.foldl_cons, ih, Opening.complete_tokens, List.map_cons, List.reverse_cons,
      List.append_assoc]
    rfl

/-- Negations and options of what is one alternative are so, too. -/
theorem foldl_complete_shaped {os : List Opening} (hos : ∀ o ∈ os, o.isRelation = false)
    {p : Phrase} (hp : Shaped .unary p) : Shaped .unary (os.foldl (fun p o => o.complete p) p) := by
  induction os generalizing p with
  | nil => exact hp
  | cons o os ih =>
    obtain ⟨ho, hos⟩ := List.forall_mem_cons.mp hos
    apply ih hos
    cases o with
    | not => exact .not hp
    | optional => exact .optional hp
    | relation symbol => cases ho

namespace Scope

/-- The token that opens the scope. -/
def opener : Scope → Token
  | bracket => .openBracket
  | headless | node _ => .openBrace

def tokens : Scope → List Token
  | node head => head.tokens
  | headless | bracket => []

end Scope

namespace Level

/-- The tokens read since the scope was opened. -/
def tokens (l : Level) : List Token :=
  l.scope.tokens ++ (l.constraints.reverse.flatMap Arms.tokens ++
    ((if l.joining then [.bar] else []) ++ (l.openings.map Opening.token).reverse))

structure Shaped (l : Level) : Prop where
  fresh : l.scope = .headless → l = start .headless
  head : ∀ p, l.scope = .node p → Query.Shaped .item p
  arms : ∀ a ∈ l.constraints, a.Shaped
  openings : ∀ o ∈ l.openings.tail, o.isRelation = false

theorem shaped_start {scope : Scope} (h : ∀ p, scope ≠ .node p) : (start scope).Shaped where
  fresh := fun hs => congrArg start hs
  head := fun p hp => absurd hp (h p)
  arms := fun _ ha => absurd ha List.not_mem_nil
  openings := fun _ ho => absurd ho List.not_mem_nil

/-- The level has grown by these tokens. -/
structure Grows (l : Level) (ts : List Token) (l' : Level) : Prop where
  shaped : l'.Shaped
  tokens_eq : l'.tokens = l.tokens ++ ts
  opener_eq : l'.scope.opener = l.scope.opener

theorem phrases_tokens (l : Level) :
    tokensAll l.phrases = l.constraints.reverse.flatMap Arms.tokens := by
  unfold phrases
  induction l.constraints.reverse with
  | nil => rfl
  | cons a as ih => rw [List.map_cons, tokensAll, ih, List.flatMap_cons, Arms.toPhrase_tokens]

theorem Shaped.phrases {l : Level} (h : l.Shaped) :
    ∀ p ∈ l.phrases, Query.Shaped .constraint p := by
  intro p hp
  obtain ⟨a, ha, rfl⟩ := List.mem_map.mp hp
  exact (h.arms a (List.mem_reverse.mp ha)).toPhrase

theorem isSettled_iff {l : Level} :
    l.isSettled = true ↔ l.scope ≠ .headless ∧ l.openings = [] ∧ l.joining = false := by
  unfold isSettled
  split
  · rename_i hs
    simp [hs]
  · rename_i hs
    have hne : l.scope ≠ .headless := hs
    simp [hne]

theorem wantsConstraint_iff {l : Level} :
    l.wantsConstraint = true ↔
      l.scope ≠ .headless ∧ ∀ o ∈ l.openings.head?, o.isRelation = false := by
  obtain ⟨scope, constraints, joining, openings⟩ := l
  cases scope <;> rcases openings with _ | ⟨_ | _ | _, os⟩ <;>
    simp [wantsConstraint, Opening.isRelation]

theorem wantsConstraint_of_settled {l : Level} (h : l.isSettled = true) :
    l.wantsConstraint = true := by
  obtain ⟨hs, ho, _⟩ := isSettled_iff.mp h
  exact wantsConstraint_iff.mpr ⟨hs, fun o hm => by rw [ho] at hm; cases hm⟩

theorem tokens_of_settled {l : Level} (h : l.isSettled = true) :
    l.tokens = l.scope.tokens ++ tokensAll l.phrases := by
  obtain ⟨_, ho, hj⟩ := isSettled_iff.mp h
  rw [tokens, phrases_tokens, ho, hj]
  simp

/-- Where a constraint is called for, nothing that has been opened calls for a node. -/
theorem Shaped.openings_of_wants {l : Level} (hl : l.Shaped) (hw : l.wantsConstraint = true) :
    ∀ o ∈ l.openings, o.isRelation = false := by
  obtain ⟨_, ho⟩ := wantsConstraint_iff.mp hw
  have htail := hl.openings
  intro o hm
  cases hos : l.openings with
  | nil =>
    rw [hos] at hm
    cases hm
  | cons o' os =>
    rw [hos] at hm ho htail
    rcases List.mem_cons.mp hm with rfl | hm
    · exact ho o rfl
    · exact htail o hm

theorem push_grows {l : Level} (hl : l.Shaped) (hw : l.wantsConstraint = true) (o : Opening) :
    l.Grows [o.token] (l.push o) := by
  obtain ⟨hs, _⟩ := wantsConstraint_iff.mp hw
  refine ⟨⟨fun hn => absurd hn hs, hl.head, hl.arms, hl.openings_of_wants hw⟩, ?_, rfl⟩
  cases hj : l.joining <;> simp [tokens, push, hj]

/-- The place of the phrase that is called for inside a scope. -/
def role (l : Level) : Role :=
  if l.wantsConstraint then .unary else .item

/-- Its openings make an alternative of what is called for. -/
theorem completed_shaped {l : Level} (hl : l.Shaped) (hs : l.scope ≠ .headless) {p : Phrase}
    (hp : Query.Shaped l.role p) :
    Query.Shaped .unary (l.openings.foldl (fun p o => o.complete p) p) := by
  have htail := hl.openings
  by_cases hw : l.wantsConstraint = true
  · rw [role, if_pos hw] at hp
    exact foldl_complete_shaped (hl.openings_of_wants hw) hp
  · rw [role, if_neg hw] at hp
    cases hos : l.openings with
    | nil => exact absurd (wantsConstraint_iff.mpr ⟨hs, by simp [hos]⟩) hw
    | cons o os =>
      rw [hos] at htail
      cases o with
      | relation symbol => exact foldl_complete_shaped htail (.relation symbol hp)
      | not | optional =>
        exact absurd (wantsConstraint_iff.mpr ⟨hs, by simp [hos, Opening.isRelation]⟩) hw

theorem add_grows {l l' : Level} (hl : l.Shaped) (hs : l.scope ≠ .headless) {p : Phrase}
    (hp : Query.Shaped l.role p) (h : l.add? p = some l') : l.Grows p.tokens l' := by
  have hc := completed_shaped hl hs hp
  have ht := foldl_complete_tokens l.openings p
  unfold add? at h
  generalize l.openings.foldl (fun p o => o.complete p) p = q at h hc ht
  by_cases hj : l.joining = true
  · simp only [hj, ↓reduceIte] at h
    cases hcs : l.constraints with
    | nil =>
      rw [hcs] at h
      cases h
    | cons arms rest =>
      have harms := hl.arms
      rw [hcs] at h harms
      cases h
      obtain ⟨ha, hrest⟩ := List.forall_mem_cons.mp harms
      refine ⟨⟨fun hn => absurd hn hs, hl.head, ?_, fun _ ho => absurd ho List.not_mem_nil⟩, ?_,
        rfl⟩
      · exact List.forall_mem_cons.mpr ⟨ha.add hc, hrest⟩
      · simp [tokens, hcs, hj, Arms.add_tokens, ht]
  · simp only [hj, Bool.false_eq_true, ↓reduceIte] at h
    cases h
    refine ⟨⟨fun hn => absurd hn hs, hl.head, ?_, fun _ ho => absurd ho List.not_mem_nil⟩, ?_, rfl⟩
    · exact List.forall_mem_cons.mpr ⟨⟨hc, fun _ hm => absurd hm List.not_mem_nil⟩, hl.arms⟩
    · simp [tokens, hj, Arms.tokens, tokensBarred, ht]

theorem addNode_grows {l l' : Level} (hl : l.Shaped) {p : Phrase} (hp : Query.Shaped .item p)
    (hw : l.wantsConstraint = true → Query.Shaped .unary p) (h : l.addNode? p = some l') :
    l.Grows p.tokens l' := by
  by_cases hs : l.scope = .headless
  · have hl' : l = start .headless := hl.fresh hs
    subst hl'
    cases h
    refine ⟨⟨fun hn => ?_, fun q hq => ?_, hl.arms, hl.openings⟩, ?_, rfl⟩
    · cases hn
    · cases hq
      exact hp
    · simp [tokens, start, Scope.tokens]
  · have hadd : l.add? p = some l' := by
      unfold addNode? at h
      split at h
      · rename_i hn
        exact absurd hn hs
      · exact h
    refine add_grows hl hs ?_ hadd
    rw [role]
    split
    · rename_i hwant
      exact hw hwant
    · exact hp

end Level

namespace Reading

/-- The tokens of a level and of those around it. -/
def tokensFrom : Level → List Level → List Token
  | l, [] => l.tokens
  | l, above :: outer => tokensFrom above outer ++ l.scope.opener :: l.tokens

def tokens (s : Reading) : List Token :=
  tokensFrom s.level s.outer

/-- Every level is in shape, and brackets were opened where a constraint was called for. -/
def ShapedFrom : Level → List Level → Prop
  | l, [] => l.Shaped
  | l, above :: outer =>
    l.Shaped ∧ (l.scope.opener = .openBracket → above.wantsConstraint = true) ∧
      ShapedFrom above outer

def Shaped (s : Reading) : Prop :=
  ShapedFrom s.level s.outer

theorem Shaped.level {s : Reading} (h : s.Shaped) : s.level.Shaped := by
  obtain ⟨l, outer⟩ := s
  cases outer with
  | nil => exact h
  | cons above outer => exact h.1

/-- What a level grows by, the whole reading grows by. -/
theorem grow {l l' : Level} {outer : List Level} (h : Shaped ⟨l, outer⟩) {ts : List Token}
    (hl : l.Grows ts l') : Shaped ⟨l', outer⟩ ∧ tokens ⟨l', outer⟩ = tokens ⟨l, outer⟩ ++ ts := by
  cases outer with
  | nil => exact ⟨hl.shaped, hl.tokens_eq⟩
  | cons above outer =>
    obtain ⟨_, hb, habove⟩ := h
    refine ⟨⟨hl.shaped, fun ho => hb (hl.opener_eq ▸ ho), habove⟩, ?_⟩
    simp only [tokens, tokensFrom, hl.tokens_eq, hl.opener_eq, List.append_assoc, List.cons_append]

theorem openWith_grows {s s' : Reading} (hs : s.Shaped) {o : Opening} (h : s.openWith o = some s') :
    s'.Shaped ∧ s'.tokens = s.tokens ++ [o.token] := by
  unfold openWith at h
  by_cases hw : s.level.wantsConstraint = true
  · rw [if_pos hw] at h
    cases h
    exact grow hs (Level.push_grows hs.level hw o)
  · rw [if_neg hw] at h
    cases h

theorem closeBracket_grows {s s' : Reading} (hs : s.Shaped) (h : s.next? .closeBracket = some s') :
    s'.Shaped ∧ s'.tokens = s.tokens ++ [.closeBracket] := by
  obtain ⟨l, outer⟩ := s
  have hl : l.Shaped := hs.level
  simp only [next?] at h
  split at h
  · rename_i above outer hscope
    obtain ⟨_, hb, habove⟩ := hs
    have habove : Shaped ⟨above, outer⟩ := habove
    by_cases hset : (l.isSettled && !l.constraints.isEmpty) = true
    · simp only [hset, ↓reduceIte] at h
      obtain ⟨l', hl', rfl⟩ := Option.map_eq_some_iff.mp h
      rw [Bool.and_eq_true] at hset
      have hw : above.wantsConstraint = true := hb (by rw [hscope]; rfl)
      have hne : l.phrases ≠ [] := by
        simpa [Level.phrases] using hset.2
      have hp : Query.Shaped above.role (.all l.phrases) := by
        rw [Level.role, if_pos hw]
        exact .all hne hl.phrases
      have hg := Level.add_grows habove.level (Level.wantsConstraint_iff.mp hw).1 hp hl'
      obtain ⟨hshaped, ht⟩ := grow habove hg
      refine ⟨hshaped, ht.trans ?_⟩
      simp only [tokens, tokensFrom, Level.tokens_of_settled hset.1, hscope, Scope.tokens,
        Scope.opener, Phrase.tokens, List.nil_append, List.append_assoc, List.cons_append]
    · simp [hset] at h
  · cases h

theorem closeBrace_grows {s s' : Reading} (hs : s.Shaped) {capture : Option String}
    (h : s.next? (.closeBrace capture) = some s') :
    s'.Shaped ∧ s'.tokens = s.tokens ++ [.closeBrace capture] := by
  obtain ⟨l, outer⟩ := s
  have hl : l.Shaped := hs.level
  simp only [next?] at h
  split at h
  · rename_i head above outer hscope
    obtain ⟨_, _, habove⟩ := hs
    have habove : Shaped ⟨above, outer⟩ := habove
    by_cases hset : l.isSettled = true
    · simp only [hset, ↓reduceIte] at h
      obtain ⟨l', hl', rfl⟩ := Option.map_eq_some_iff.mp h
      have hp : Query.Shaped .braced (.group head l.phrases capture) :=
        .group capture (hl.head head hscope) hl.phrases
      have hg := Level.addNode_grows habove.level (.bracedItem hp) (fun _ => .bracedUnary hp) hl'
      obtain ⟨hshaped, ht⟩ := grow habove hg
      refine ⟨hshaped, ht.trans ?_⟩
      simp only [tokens, tokensFrom, Level.tokens_of_settled hset, hscope, Scope.tokens,
        Scope.opener, Phrase.tokens, List.append_assoc, List.cons_append]
    · simp [hset] at h
  · cases h

/-- Each token is added to those read before. -/
theorem next_grows {s s' : Reading} (hs : s.Shaped) {tok : Token} (h : s.next? tok = some s') :
    s'.Shaped ∧ s'.tokens = s.tokens ++ [tok] := by
  obtain ⟨l, outer⟩ := s
  have hl : l.Shaped := hs.level
  cases tok with
  | anchor a =>
    by_cases hw : l.wantsConstraint = true
    · simp [next?, hw] at h
    · simp only [next?, if_neg hw] at h
      obtain ⟨l', hl', rfl⟩ := Option.map_eq_some_iff.mp h
      exact grow hs (Level.addNode_grows hl (.anchor a) (fun hn => absurd hn hw) hl')
  | operator symbol => exact openWith_grows hs h
  | not => exact openWith_grows hs h
  | optional => exact openWith_grows hs h
  | bar =>
    by_cases hset : (l.isSettled && !l.constraints.isEmpty) = true
    · simp only [next?, hset, ↓reduceIte] at h
      cases h
      rw [Bool.and_eq_true] at hset
      obtain ⟨hscope, ho, hj⟩ := Level.isSettled_iff.mp hset.1
      refine grow hs ⟨⟨fun hn => absurd hn hscope, hl.head, hl.arms, hl.openings⟩, ?_, rfl⟩
      simp [Level.tokens, ho, hj]
    · simp [next?, hset] at h
  | openBracket =>
    by_cases hw : l.wantsConstraint = true
    · simp only [next?, hw, ↓reduceIte] at h
      cases h
      have hnew : (Level.start .bracket).Shaped := Level.shaped_start fun p hp => by cases hp
      exact ⟨⟨hnew, fun _ => hw, hs⟩, rfl⟩
    · simp [next?, hw] at h
  | openBrace =>
    cases h
    have hnew : (Level.start .headless).Shaped := Level.shaped_start fun p hp => by cases hp
    exact ⟨⟨hnew, fun ho => (by cases ho), hs⟩, rfl⟩
  | closeBracket => exact closeBracket_grows hs h
  | closeBrace capture => exact closeBrace_grows hs h

/-- A reading is in shape however far it got, and tells all the tokens it has read. -/
theorem run_grows {ts : List Token} {s s' : Reading} (hs : s.Shaped)
    (h : ts.foldlM next? s = some s') : s'.Shaped ∧ s'.tokens = s.tokens ++ ts := by
  induction ts generalizing s with
  | nil =>
    cases h
    exact ⟨hs, (List.append_nil _).symm⟩
  | cons tok ts ih =>
    rw [List.foldlM_cons] at h
    obtain ⟨mid, hmid, h⟩ := Option.bind_eq_some_iff.mp h
    obtain ⟨hm, ht⟩ := next_grows hs hmid
    obtain ⟨hshaped, ht'⟩ := ih hm h
    refine ⟨hshaped, ?_⟩
    rw [ht', ht, List.append_assoc]
    rfl

theorem finish_shaped {s : Reading} (hs : s.Shaped) {n : NodePhrase} (h : s.finish? = some n) :
    n.Shaped ∧ n.tokens = s.tokens := by
  obtain ⟨l, outer⟩ := s
  have hl : l.Shaped := hs.level
  unfold finish? at h
  split at h
  · rename_i head hscope hout
    simp only at hscope hout
    subst hout
    by_cases hset : l.isSettled = true
    · simp only [hset, ↓reduceIte] at h
      cases h
      refine ⟨⟨hl.head head hscope, hl.phrases⟩, ?_⟩
      simp only [tokens, tokensFrom, Level.tokens_of_settled hset, hscope, Scope.tokens,
        NodePhrase.tokens]
    · simp [hset] at h
  · cases h

end Reading

theorem NodePhrase.shaped_of_tokens? {ts : List Token} {n : NodePhrase}
    (h : NodePhrase.ofTokens? ts = some n) : n.Shaped ∧ n.tokens = ts := by
  obtain ⟨s, hrun, hfin⟩ := Option.bind_eq_some_iff.mp h
  have hstart : Reading.start.Shaped := Level.shaped_start fun p hp => by cases hp
  obtain ⟨hs, ht⟩ := Reading.run_grows hstart hrun
  obtain ⟨hn, htn⟩ := Reading.finish_shaped hs hfin
  exact ⟨hn, htn.trans ht⟩

end Reading

section Run

open Reading

namespace Level

/-- Adds a finished constraint. -/
def put (l : Level) (a : Arms) : Level :=
  { l with constraints := a :: l.constraints }

theorem addNode?_of_opened {l : Level} (hs : l.scope ≠ .headless) (p : Phrase) :
    l.addNode? p = l.add? p := by
  unfold addNode?
  split
  · rename_i hn
    exact absurd hn hs
  · rfl

theorem wantsConstraint_push {l : Level} (h : l.wantsConstraint = true) {o : Opening}
    (ho : o.isRelation = false) : (l.push o).wantsConstraint = true := by
  obtain ⟨hs, _⟩ := wantsConstraint_iff.mp h
  refine wantsConstraint_iff.mpr ⟨hs, fun o' hm => ?_⟩
  cases hm
  exact ho

theorem add?_of_settled {l : Level} (h : l.isSettled = true) (p : Phrase) :
    l.add? p = some (l.put ⟨p, []⟩) := by
  obtain ⟨scope, constraints, joining, openings⟩ := l
  obtain ⟨_, rfl, rfl⟩ := isSettled_iff.mp h
  rfl

/-- After a bar the constraint joins the latest one. -/
theorem add?_of_joining {l : Level} (h : l.isSettled = true) {a : Arms} {rest : List Arms}
    (hc : l.constraints = a :: rest) (p : Phrase) :
    { l with joining := true }.add? p = some { l with constraints := a.add p :: rest } := by
  obtain ⟨scope, constraints, joining, openings⟩ := l
  obtain ⟨_, rfl, rfl⟩ := isSettled_iff.mp h
  obtain rfl : constraints = a :: rest := hc
  rfl

end Level

/-- What reading the tokens of a phrase does where the phrase is called for. -/
def Effect : Role → Phrase → Prop
  | .braced, p => ∀ s : Reading,
    p.tokens.foldlM next? s = (s.level.addNode? p).map fun level => { s with level }
  | .item, p => ∀ s : Reading, s.level.wantsConstraint = false →
    p.tokens.foldlM next? s = (s.level.addNode? p).map fun level => { s with level }
  | .unary, p => ∀ s : Reading, s.level.wantsConstraint = true →
    p.tokens.foldlM next? s = (s.level.add? p).map fun level => { s with level }
  | .constraint, p => ∃ a : Arms, a.toPhrase = p ∧ ∀ s : Reading, s.level.isSettled = true →
    p.tokens.foldlM next? s = some { s with level := s.level.put a }

theorem run_all {cs : List Phrase} (h : ∀ c ∈ cs, Effect .constraint c) {s : Reading}
    (hs : s.level.isSettled = true) :
    ∃ as : List Arms, as.map Arms.toPhrase = cs ∧ (tokensAll cs).foldlM next? s =
      some { s with level :=
        { s.level with constraints := as.reverse ++ s.level.constraints } } := by
  induction cs generalizing s with
  | nil => exact ⟨[], rfl, rfl⟩
  | cons c cs ih =>
    obtain ⟨hc, hcs⟩ := List.forall_mem_cons.mp h
    obtain ⟨a, rfl, ha⟩ := hc
    have hput : { s with level := s.level.put a }.level.isSettled = true := hs
    obtain ⟨as, rfl, has⟩ := ih hcs hput
    refine ⟨a :: as, rfl, ?_⟩
    rw [tokensAll, List.foldlM_append, ha s hs]
    refine has.trans ?_
    simp [Level.put]

theorem run_barred {ps : List Phrase} (h : ∀ p ∈ ps, Effect .unary p) {s : Reading}
    (hs : s.level.isSettled = true) {a : Arms} {rest : List Arms}
    (hc : s.level.constraints = a :: rest) :
    (tokensBarred ps).foldlM next? s = some { s with level :=
      { s.level with constraints := { a with others := a.others ++ ps } :: rest } } := by
  induction ps generalizing s a with
  | nil =>
    rw [List.append_nil, ← hc]
    rfl
  | cons p ps ih =>
    obtain ⟨hp, hps⟩ := List.forall_mem_cons.mp h
    obtain ⟨l, outer⟩ := s
    have hbar : next? ⟨l, outer⟩ .bar = some ⟨{ l with joining := true }, outer⟩ := by
      have hset : l.isSettled = true := hs
      have hcs : l.constraints = a :: rest := hc
      simp [next?, hset, hcs]
    have hw : l.wantsConstraint = true := Level.wantsConstraint_of_settled hs
    have hrun := hp ⟨{ l with joining := true }, outer⟩ hw
    rw [Level.add?_of_joining hs hc, Option.map_some] at hrun
    have hnext : { l with constraints := a.add p :: rest }.isSettled = true := hs
    rw [tokensBarred, List.cons_append, List.foldlM_cons, hbar]
    change (p.tokens ++ tokensBarred ps).foldlM next? _ = _
    rw [List.foldlM_append, hrun]
    refine (ih hps hnext rfl).trans ?_
    simp [Arms.add]

/-- A node is read to the end of its constraints. -/
theorem run_node {head : Phrase} {cs : List Phrase} (hhead : Effect .item head)
    (hcs : ∀ c ∈ cs, Effect .constraint c) (outer : List Level) :
    ∃ l : Level, l.scope = .node head ∧ l.isSettled = true ∧ l.phrases = cs ∧
      (head.tokens ++ tokensAll cs).foldlM next? ⟨.start .headless, outer⟩ = some ⟨l, outer⟩ := by
  have hrun := hhead ⟨.start .headless, outer⟩ rfl
  have hset : (⟨.start (.node head), outer⟩ : Reading).level.isSettled = true := rfl
  obtain ⟨as, hphrases, hall⟩ := run_all hcs hset
  refine ⟨{ Level.start (.node head) with constraints := as.reverse ++ [] }, rfl, rfl, ?_, ?_⟩
  · simpa [Level.phrases] using hphrases
  · rw [List.foldlM_append, hrun]
    exact hall

theorem run_closeBrace {l above : Level} {outer : List Level} {head : Phrase}
    (hscope : l.scope = .node head) (hset : l.isSettled = true) (capture : Option String) :
    [.closeBrace capture].foldlM next? ⟨l, above :: outer⟩ =
      (above.addNode? (.group head l.phrases capture)).map fun level => ⟨level, outer⟩ := by
  simp [next?, hscope, hset]

theorem run_closeBracket {l above : Level} {outer : List Level} (hscope : l.scope = .bracket)
    (hset : l.isSettled = true) (hne : l.constraints ≠ []) :
    [.closeBracket].foldlM next? ⟨l, above :: outer⟩ =
      (above.add? (.all l.phrases)).map fun level => ⟨level, outer⟩ := by
  simp [next?, hscope, hset, hne]

theorem effect {r : Role} {p : Phrase} (h : Shaped r p) : Effect r p := by
  induction h with
  | @group head cs capture _ _ hhead hcs =>
    intro s
    obtain ⟨l, hscope, hset, rfl, hrun⟩ := run_node hhead hcs (s.level :: s.outer)
    rw [Phrase.tokens, List.cons_append, List.foldlM_cons]
    change ((head.tokens ++ tokensAll l.phrases) ++ [_]).foldlM next? ⟨_, s.level :: s.outer⟩ = _
    rw [List.foldlM_append, hrun]
    exact run_closeBrace hscope hset capture
  | anchor a =>
    intro s hw
    rw [Phrase.tokens, List.foldlM_cons, next?, if_neg (by simp [hw])]
    simp
  | bracedItem _ ih => exact fun s _ => ih s
  | bracedUnary _ ih =>
    intro s hw
    rw [ih s, Level.addNode?_of_opened (Level.wantsConstraint_iff.mp hw).1]
  | relation symbol _ ih =>
    intro s hw
    rw [Phrase.tokens, List.foldlM_cons, next?, openWith, if_pos hw]
    obtain ⟨hscope, _⟩ := Level.wantsConstraint_iff.mp hw
    have hnode : (s.level.push (.relation symbol)).wantsConstraint = false := by
      simp [Level.wantsConstraint, Level.push]
    have hadd : ∀ p, (s.level.push (.relation symbol)).addNode? p =
        s.level.add? (.relation symbol p) := Level.addNode?_of_opened hscope
    exact (ih ⟨s.level.push (.relation symbol), s.outer⟩ hnode).trans
      (congrArg (Option.map _) (hadd _))
  | not _ ih =>
    intro s hw
    rw [Phrase.tokens, List.foldlM_cons, next?, openWith, if_pos hw]
    exact ih ⟨s.level.push .not, s.outer⟩ (Level.wantsConstraint_push hw rfl)
  | optional _ ih =>
    intro s hw
    rw [Phrase.tokens, List.foldlM_cons, next?, openWith, if_pos hw]
    exact ih ⟨s.level.push .optional, s.outer⟩ (Level.wantsConstraint_push hw rfl)
  | @all ms hne _ ih =>
    intro s hw
    have hset : (⟨.start .bracket, s.level :: s.outer⟩ : Reading).level.isSettled = true := rfl
    obtain ⟨as, hphrases, hall⟩ := run_all ih hset
    rw [Phrase.tokens, List.cons_append, List.foldlM_cons, next?, if_pos hw]
    change (tokensAll ms ++ [_]).foldlM next? ⟨.start .bracket, s.level :: s.outer⟩ = _
    rw [List.foldlM_append, hall]
    have hsome : as.reverse ++ [] ≠ [] := by
      rintro hn
      apply hne
      rw [← hphrases]
      simpa using hn
    have hp : ({ Level.start .bracket with constraints := as.reverse ++ [] } : Level).phrases =
        ms := by
      simpa [Level.phrases] using hphrases
    rw [← hp]
    exact run_closeBracket rfl rfl hsome
  | single _ ih =>
    refine ⟨⟨_, []⟩, rfl, fun s hs => ?_⟩
    rw [ih s (Level.wantsConstraint_of_settled hs), Level.add?_of_settled hs, Option.map_some]
  | @alternatives p q ps _ _ ih ihs =>
    refine ⟨⟨p, q :: ps⟩, rfl, fun s hs => ?_⟩
    have hput : { s with level := s.level.put ⟨p, []⟩ }.level.isSettled = true := hs
    have hfirst := ih s (Level.wantsConstraint_of_settled hs)
    rw [Level.add?_of_settled hs, Option.map_some] at hfirst
    change (p.tokens ++ tokensBarred (q :: ps)).foldlM next? s = _
    rw [List.foldlM_append, hfirst]
    exact run_barred ihs hput rfl

/-- The grammar of queries: a text of tokens is read as the one query that has these tokens. -/
theorem NodePhrase.ofTokens?_eq_some {ts : List Token} {n : NodePhrase} :
    NodePhrase.ofTokens? ts = some n ↔ n.Shaped ∧ n.tokens = ts := by
  constructor
  · exact shaped_of_tokens?
  · rintro ⟨hn, rfl⟩
    obtain ⟨l, hscope, hset, hphrases, hrun⟩ :=
      run_node (effect hn.head) (fun c hc => effect (hn.constraints c hc)) []
    have hfin : finish? ⟨l, []⟩ = some n := by
      simp [finish?, hscope, hset, hphrases]
    rw [ofTokens?, NodePhrase.tokens]
    change (List.foldlM next? ⟨.start .headless, []⟩ _).bind _ = _
    rw [hrun, Option.bind_some, hfin]

end Run

end TreeQuery.Query
