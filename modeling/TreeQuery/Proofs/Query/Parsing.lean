import TreeQuery.Proofs.Query.Derivations

namespace TreeQuery.Query

open Text Grammar
open Grammar.Expr (sign blanks loosely manyLoosely)
open Token (cut? isOperatorChar)

variable {cs rest : List Char} {e f : Expr Rule} {toks : List Token}

abbrev CutInto (wanting : Bool) (toks : List Token) (cs : List Char) : Prop :=
  cut? wanting cs = some toks

/-- The expression takes a text that begins with the tokens, and leaves what can be cut into
whatever tokens may follow. -/
abbrev Takes (e : Expr Rule) (wanting : Bool) (toks : List Token) (follow : List Token → Prop) :
    Prop :=
  Grammar.Takes rules (CutInto wanting) (CutInto false) e toks follow

theorem CutInto.skipBlanks (cs : List Char) (h : CutInto false toks cs) :
    CutInto false toks (skipBlanks cs) :=
  (cut?_skipBlanks false cs).trans h

/-- Anything may follow. -/
abbrev TakesAlways (e : Expr Rule) (wanting : Bool) (toks : List Token) : Prop :=
  Takes e wanting toks fun _ => True

/-- Tokens that a constraint may begin with. -/
def Token.begins : Token → Bool
  | not | optional | openBracket | openBrace | operator _ => true
  | anchor _ | bar | closeBracket | closeBrace _ => false

/-- The next token, if there is one, is none that a constraint begins with. -/
def NoneBegins (toks : List Token) : Prop :=
  ∀ tok ∈ toks.head?, tok.begins = false

theorem head_of_noneBegins (h : cut? false cs = some toks) (hnone : NoneBegins toks) :
    ∀ c ∈ (skipBlanks cs).head?, c ∈ ['|', ']', '}'] := by
  intro c hc
  cases toks with
  | nil =>
    rw [cut?_eq_nil h] at hc
    cases hc
  | cons tok toks =>
    obtain ⟨rest, htok, _⟩ := cut?_eq_cons h
    have hbegins := hnone tok rfl
    have hhead := constraint?_eq_some.mp htok
    generalize skipBlanks cs = ds at hc hhead
    cases hhead with
    | bar | closeBracket | closeBrace =>
      cases hc
      simp
    | _ => cases hbegins

theorem unary_fails (h : ∀ c ∈ cs.head?, c ∈ ['|', ']', '}']) :
    Parses rules (.rule .unary) cs none := by
  have hsign {c : Char} (hc : c ∉ ['|', ']', '}']) : cs.head? ≠ some c :=
    fun hhead => hc (h c hhead)
  have hoperator : run? isOperatorChar isOperatorChar cs = none := by
    cases cs with
    | nil => rfl
    | cons c cs =>
      have hc := h c rfl
      rw [run?, if_neg]
      intro ho
      apply (operatorChar_head ho).2
      simp only [List.mem_cons, List.not_mem_nil, or_false] at hc
      rcases hc with hc | hc | hc
      all_goals simp [hc]
  refine .ruleFails (.choiceSecond (rule_fails rfl (hsign (by simp))) (.choiceSecond
    (rule_fails rfl (hsign (by simp))) (.choiceSecond (rule_fails rfl (hsign (by simp)))
      (.choiceSecond (rule_fails rfl (hsign (by simp))) (.ruleFails (.seqFirst ?_))))))
  exact realizes_operator.missing hoperator

theorem alternative_fails (h : cut? false cs = some toks) (hnone : NoneBegins toks) :
    Parses rules (.rule .alternative) (skipBlanks cs) none :=
  .ruleFails (.seqFirst (unary_fails (head_of_noneBegins h hnone)))

theorem bar_fails (h : cut? false cs = some toks) (hbar : toks.head? ≠ some .bar) :
    Parses rules (loosely (sign '|') (.rule .unary)) (skipBlanks cs) none := by
  apply Parses.seqFirst
  apply sign_fails
  intro hhead
  obtain ⟨rest, hcs⟩ := List.head?_eq_some_iff.mp hhead
  rw [cut?_of_cons hcs] at h
  obtain ⟨x, hx, h⟩ := Option.bind_eq_some_iff.mp h
  obtain ⟨more, _, he⟩ := Option.map_eq_some_iff.mp h
  cases hx
  subst toks
  exact hbar rfl

theorem begins_of_shaped {r : Role} {p : Phrase} (h : Shaped r p) (hr : r ≠ .item) :
    ∃ tok toks, p.tokens = tok :: toks ∧ tok.begins = true := by
  induction h with
  | group => exact ⟨_, _, rfl, rfl⟩
  | anchor | bracedItem => exact absurd rfl hr
  | bracedUnary _ ih => exact ih (by simp)
  | relation => exact ⟨_, _, rfl, rfl⟩
  | not => exact ⟨_, _, rfl, rfl⟩
  | optional => exact ⟨_, _, rfl, rfl⟩
  | all => exact ⟨_, _, rfl, rfl⟩
  | single _ ih => exact ih (by simp)
  | alternatives _ _ ih =>
    obtain ⟨tok, toks, htoks, hbegins⟩ := ih (by simp)
    exact ⟨tok, _, by rw [Phrase.tokens, htoks, List.cons_append], hbegins⟩

/-- No bar comes next. -/
def NoBar (toks : List Token) : Prop :=
  toks.head? ≠ some .bar

def Token.closes : Token → Bool
  | closeBracket | closeBrace _ => true
  | _ => false

/-- The end of a list of constraints. -/
def Closed (toks : List Token) : Prop :=
  NoBar toks ∧ NoneBegins toks

theorem closed_nil : Closed [] := by
  simp [Closed, NoBar, NoneBegins]

theorem closed_cons {tok : Token} (h : tok.closes = true) : Closed (tok :: toks) := by
  constructor
  · intro hbar
    cases hbar
    cases h
  · intro tok' htok
    cases htok
    cases tok with
    | closeBracket | closeBrace => rfl
    | _ => cases h

/-- A phrase is taken by the rule for the place. -/
def TakenAs : Role → Phrase → Prop
  | .braced, p => ∀ wanting, TakesAlways (.rule .group) wanting p.tokens
  | .item, p => TakesAlways (.choice (.rule .group) (.rule .anchor)) true p.tokens ∧
      TakesAlways (.rule .operand) true p.tokens
  | .unary, p => TakesAlways (.rule .unary) false p.tokens
  | .constraint, p => Takes (.rule .alternative) false p.tokens NoBar

theorem noBar_constraints {ps : List Phrase} {more : List Token}
    (h : ∀ p ∈ ps, Shaped .constraint p) (hmore : NoBar more) : NoBar (tokensAll ps ++ more) := by
  cases ps with
  | nil => exact hmore
  | cons p ps =>
    obtain ⟨tok, toks, htoks, hbegins⟩ := begins_of_shaped (h p (by simp)) (by simp)
    rw [NoBar, tokensAll, htoks]
    intro hbar
    cases hbar
    cases hbegins

theorem takes_constraints {ps : List Phrase} {more : List Token}
    (hshaped : ∀ p ∈ ps, Shaped .constraint p) (htakes : ∀ p ∈ ps, TakenAs .constraint p)
    (hmore : Closed more) (h : cut? false cs = some (tokensAll ps ++ more)) :
    ∃ ts rest, Parses rules (manyLoosely (.rule .alternative)) (skipBlanks cs) (some (ts, rest)) ∧
      cut? false rest = some more := by
  rw [← flatMap_tokens] at h
  have hfollow : ∀ qs, qs <:+ ps → NoBar (qs.flatMap Phrase.tokens ++ more) := by
    intro qs hqs
    rw [flatMap_tokens]
    exact noBar_constraints (fun q hq => hshaped q (hqs.subset hq)) hmore.1
  have htakes' : ∀ p ∈ ps, Takes (.rule .alternative) false p.tokens NoBar := htakes
  exact takes_manyLoosely htakes' hfollow (fun ds hds => alternative_fails hds hmore.2)
    CutInto.skipBlanks h

theorem takes_node {head : Phrase} {ps : List Phrase} (hhead : TakenAs .item head)
    (hshaped : ∀ p ∈ ps, Shaped .constraint p) (htakes : ∀ p ∈ ps, TakenAs .constraint p) :
    Takes (.rule .node) true (head.tokens ++ tokensAll ps) Closed := by
  intro cs more hmore h
  rw [List.append_assoc] at h
  obtain ⟨us, mid, hitem, hmid⟩ := hhead.1 cs _ trivial h
  obtain ⟨vs, rest, hconstraints, hrest⟩ := takes_constraints hshaped htakes hmore hmid
  exact ⟨_, rest, parses_rule.mpr ⟨_, parses_loosely.mpr ⟨us, mid, vs, hitem, hconstraints, rfl⟩,
    rfl⟩, hrest⟩

theorem token?_eq_openBrace {wanting : Bool} (h : token? wanting cs = some (.openBrace, rest)) :
    cs = '{' :: rest := by
  cases wanting with
  | true =>
    rcases node?_eq_some.mp h with ⟨_, hcs⟩ | ⟨l, he, _⟩
    · exact hcs
    · cases he
  | false =>
    cases constraint?_eq_some.mp h
    rfl

theorem takes_group {head : Phrase} {ps : List Phrase} (capture : Option String)
    (hnode : Takes (.rule .node) true (head.tokens ++ tokensAll ps) Closed) :
    TakenAs .braced (.group head ps capture) := by
  intro wanting cs more _ h
  obtain ⟨inner, hopen, hinner⟩ := cut?_eq_cons h
  have hinside : cut? true inner =
      some ((head.tokens ++ tokensAll ps) ++ .closeBrace capture :: more) := by
    simpa [Token.wantsNode] using hinner
  have hclosed : Closed (.closeBrace capture :: more) := closed_cons rfl
  obtain ⟨us, mid, hn, hmid⟩ := hnode inner _ hclosed hinside
  obtain ⟨left, hclose, hleft⟩ := cut?_eq_cons hmid
  have hend := constraint?_eq_some.mp hclose
  generalize hds : skipBlanks mid = ds at hend
  cases hend with
  | @closeBrace after =>
    obtain ⟨vs, _, hcapture⟩ := parses_capture (skipBlanks after)
    refine ⟨_, (Token.capture (skipBlanks after)).2, parses_rule.mpr ⟨us ++ vs, ?_, rfl⟩, ?_⟩
    · rw [token?_eq_openBrace hopen]
      refine parses_signLoosely.mpr ⟨inner, rfl, parses_loosely.mpr ⟨us, mid, vs, hn, ?_, rfl⟩⟩
      exact parses_signLoosely.mpr ⟨after, hds, hcapture⟩
    · exact (cut?_afterBrace false after).symm.trans hleft

/-- A group in the place of an item. -/
theorem takenAs_item_of_braced {p : Phrase} (h : TakenAs .braced p) : TakenAs .item p := by
  constructor
  · intro cs more _ hcut
    obtain ⟨ts, rest, hp, hrest⟩ := h true cs more trivial hcut
    exact ⟨ts, rest, .choiceFirst hp, hrest⟩
  · intro cs more _ hcut
    obtain ⟨ts, rest, hp, hrest⟩ := h true cs more trivial hcut
    exact ⟨_, rest, .rule (.choiceFirst hp), hrest⟩

theorem takes_anchor (a : Literal) : TakenAs .item (.anchor a) := by
  have hanchor {cs : List Char} {more : List Token} (h : cut? true cs = some (.anchor a :: more)) :
      ∃ rest, Parses rules (.rule .group) (skipBlanks cs) none ∧
        literal? (skipBlanks cs) = some (a, rest) ∧ cut? false rest = some more := by
    obtain ⟨rest, htok, hrest⟩ := cut?_eq_cons h
    rcases node?_eq_some.mp htok with ⟨he, _⟩ | ⟨l, he, hhead, hl⟩
    · cases he
    · cases he
      exact ⟨rest, rule_fails rfl hhead, hl, hrest⟩
  constructor
  · intro cs more _ h
    obtain ⟨rest, hgroup, hl, hrest⟩ := hanchor h
    obtain ⟨t, _, ht⟩ := realizes_anchor.found hl
    exact ⟨[t], rest, .choiceSecond hgroup ht, hrest⟩
  · intro cs more _ h
    obtain ⟨rest, hgroup, hl, hrest⟩ := hanchor h
    obtain ⟨t, _, ht⟩ := realizes_bareNode.found hl
    exact ⟨_, rest, .rule (.choiceSecond hgroup ht), hrest⟩

/-- By the first token of the phrase and what is cut after it. -/
theorem takes_unary {p : Phrase} {tok : Token} {toks : List Token}
    (htokens : p.tokens = tok :: toks)
    (h : ∀ cs rest more, ConstraintToken cs tok rest →
      cut? tok.wantsNode rest = some (toks ++ more) → ∃ ts left,
        Parses rules (rules .unary).body cs (some (ts, left)) ∧ cut? false left = some more) :
    TakenAs .unary p := by
  intro cs more _ hcut
  rw [htokens] at hcut
  obtain ⟨rest, htok, hrest⟩ := cut?_eq_cons hcut
  obtain ⟨ts, left, hp, hleft⟩ := h _ rest more (constraint?_eq_some.mp htok) hrest
  exact ⟨_, left, .rule hp, hleft⟩

theorem takes_not {p : Phrase} (hp : TakenAs .unary p) : TakenAs .unary (.not p) := by
  apply takes_unary rfl
  intro cs rest more htok hcut
  cases htok
  obtain ⟨ts, left, hu, hleft⟩ := hp rest more trivial hcut
  exact ⟨_, left, .choiceFirst (.rule (parses_signLoosely.mpr ⟨rest, rfl, hu⟩)), hleft⟩

theorem takes_optional {p : Phrase} (hp : TakenAs .unary p) : TakenAs .unary (.optional p) := by
  apply takes_unary rfl
  intro cs rest more htok hcut
  cases htok
  obtain ⟨ts, left, hu, hleft⟩ := hp rest more trivial hcut
  exact ⟨_, left, .choiceSecond (rule_fails rfl (by simp))
    (.choiceFirst (.rule (parses_signLoosely.mpr ⟨rest, rfl, hu⟩))), hleft⟩

theorem takes_all {p : Phrase} {ps : List Phrase} (hshaped : ∀ q ∈ p :: ps, Shaped .constraint q)
    (htakes : ∀ q ∈ p :: ps, TakenAs .constraint q) : TakenAs .unary (.all (p :: ps)) := by
  apply takes_unary rfl
  intro cs rest more htok hcut
  cases htok
  have hclosed : Closed (.closeBracket :: more) := closed_cons rfl
  have hfirst : cut? false rest = some (p.tokens ++ (tokensAll ps ++ .closeBracket :: more)) := by
    simpa [Token.wantsNode, tokensAll] using hcut
  have hps : ∀ q ∈ ps, Shaped .constraint q := fun q hq => hshaped q (by simp [hq])
  obtain ⟨us, mid, hp, hmid⟩ := htakes p (by simp) rest _ (noBar_constraints hps hclosed.1) hfirst
  obtain ⟨vs, left, hmore, hleft⟩ :=
    takes_constraints hps (fun q hq => htakes q (by simp [hq])) hclosed hmid
  obtain ⟨after, hclose, hafter⟩ := cut?_eq_cons hleft
  have hend := constraint?_eq_some.mp hclose
  generalize hds : skipBlanks left = ds at hend
  cases hend
  have hmembers := parses_loosely.mpr ⟨us, mid, vs, hp, hmore, rfl⟩
  have hbody := parses_loosely.mpr ⟨_, left, [], hmembers, parses_sign.mpr ⟨rfl, hds⟩, rfl⟩
  exact ⟨_, after, .choiceSecond (rule_fails rfl (by simp)) (.choiceSecond
    (rule_fails rfl (by simp)) (.choiceFirst (.rule (parses_signLoosely.mpr ⟨rest, rfl, hbody⟩)))),
    hafter⟩

theorem takes_relation {p : Phrase} (symbol : String) (hp : TakenAs .item p) :
    TakenAs .unary (.relation symbol p) := by
  apply takes_unary rfl
  intro cs rest more htok hcut
  cases htok with
  | operator hread =>
    obtain ⟨t, _, ht⟩ := realizes_operator.found hread
    obtain ⟨us, left, hoperand, hleft⟩ := hp.2 rest more trivial hcut
    have hsign {c : Char} (hc : c ∈ ['=', '!', '?', '|', '[', ']', '{', '}']) :
        cs.head? ≠ some c := by
      intro hhead
      obtain ⟨tail, hcs⟩ := List.head?_eq_some_iff.mp hhead
      subst cs
      by_cases ho : isOperatorChar c = true
      · exact (operatorChar_head ho).2 hc
      · simp [run?, ho] at hread
    have hrelation : Parses rules (.rule .relation) cs (some (_, left)) :=
      .rule (parses_loosely.mpr ⟨_, rest, us, ht, hoperand, rfl⟩)
    exact ⟨_, left, .choiceSecond (rule_fails rfl (hsign (by simp))) (.choiceSecond
      (rule_fails rfl (hsign (by simp))) (.choiceSecond (rule_fails rfl (hsign (by simp)))
        (.choiceSecond (rule_fails rfl (hsign (by simp))) hrelation))), hleft⟩

theorem takes_unary_of_braced {p : Phrase} (hs : Shaped .braced p) (h : TakenAs .braced p) :
    TakenAs .unary p := by
  intro cs more _ hcut
  obtain ⟨ts, rest, hp, hrest⟩ := h false cs more trivial hcut
  cases hs with
  | group =>
    obtain ⟨inner, hopen, _⟩ := cut?_eq_cons hcut
    rw [token?_eq_openBrace hopen] at hp ⊢
    exact ⟨_, rest, .rule (.choiceSecond (rule_fails rfl (by simp)) (.choiceSecond
      (rule_fails rfl (by simp)) (.choiceSecond (rule_fails rfl (by simp)) (.choiceFirst hp)))),
      hrest⟩

theorem takes_bar {p : Phrase} (hp : TakenAs .unary p) :
    TakesAlways (loosely (sign '|') (.rule .unary)) false (.bar :: p.tokens) := by
  intro cs more _ hcut
  obtain ⟨inner, hbar, hinner⟩ := cut?_eq_cons hcut
  have htok := constraint?_eq_some.mp hbar
  generalize hds : skipBlanks cs = ds at htok
  cases htok
  obtain ⟨ts, rest, hu, hrest⟩ := hp inner more trivial hinner
  exact ⟨ts, rest, parses_signLoosely.mpr ⟨inner, rfl, hu⟩, hrest⟩

theorem takes_alternative {p : Phrase} {ps : List Phrase} (hp : TakenAs .unary p)
    (hps : ∀ q ∈ ps, TakenAs .unary q) :
    Takes (.rule .alternative) false (p.tokens ++ tokensBarred ps) NoBar := by
  intro cs more hmore hcut
  rw [List.append_assoc] at hcut
  obtain ⟨us, mid, hfirst, hmid⟩ := hp cs _ trivial hcut
  rw [← flatMap_barred] at hmid
  obtain ⟨vs, rest, hbars, hrest⟩ := takes_manyLoosely (fun q hq => takes_bar (hps q hq))
    (fun _ _ => trivial) (fun ds hds => bar_fails hds hmore) CutInto.skipBlanks hmid
  exact ⟨_, rest, .rule (parses_loosely.mpr ⟨us, mid, vs, hfirst, hbars, rfl⟩), hrest⟩

/-- Whatever stands in its proper place is taken there. -/
theorem takenAs {r : Role} {p : Phrase} (h : Shaped r p) : TakenAs r p := by
  induction h with
  | @group head ps capture _ hps hhead htakes =>
    exact takes_group capture (takes_node hhead hps htakes)
  | anchor a => exact takes_anchor a
  | bracedItem _ ih => exact takenAs_item_of_braced ih
  | bracedUnary hs ih => exact takes_unary_of_braced hs ih
  | relation symbol _ ih => exact takes_relation symbol ih
  | not _ ih => exact takes_not ih
  | optional _ ih => exact takes_optional ih
  | @all ps hne hps ih =>
    cases ps with
    | nil => exact absurd rfl hne
    | cons p ps => exact takes_all hps ih
  | @single p _ ih =>
    have htakes := takes_alternative ih (List.forall_mem_nil _)
    rwa [tokensBarred, List.append_nil] at htakes
  | alternatives _ _ ih ihs => exact takes_alternative ih ihs

/-- What can be read as a query has a parse tree. -/
theorem parses_of_ofText? {text : String} {n : NodePhrase}
    (h : NodePhrase.ofText? text.toList = some n) : ∃ t, IsParseTree text t := by
  obtain ⟨toks, hcut, htoks⟩ := Option.bind_eq_some_iff.mp h
  obtain ⟨hn, he⟩ := NodePhrase.ofTokens?_eq_some.mp htoks
  subst toks
  have hnode := takes_node (takenAs hn.head) hn.constraints
    fun p hp => takenAs (hn.constraints p hp)
  have hall : cut? true text.toList = some ((n.head.tokens ++ tokensAll n.constraints) ++ []) := by
    simpa [NodePhrase.tokens] using hcut
  obtain ⟨ts, rest, hp, hrest⟩ := hnode text.toList [] closed_nil hall
  have hend := (parses_end (g := rules)).mpr ⟨rfl, cut?_eq_nil hrest, rfl⟩
  have hbody := parses_blanks.mpr (parses_loosely.mpr ⟨ts, rest, [], hp, hend, rfl⟩)
  exact ⟨_, parses_rule.mpr ⟨_, hbody, rfl⟩⟩

/-- The queries are the texts of the grammar, and a parse tree stands for the phrase that is read
off its text. -/
theorem ofText?_eq_some {text : String} {n : NodePhrase} :
    NodePhrase.ofText? text.toList = some n ↔ ∃ t, IsParseTree text t ∧ t.query? = some n := by
  constructor
  · intro h
    obtain ⟨t, ht⟩ := parses_of_ofText? h
    obtain ⟨n', hn', htext⟩ := ofText?_of_parses ht
    rw [h] at htext
    cases htext
    exact ⟨t, ht, hn'⟩
  · intro ⟨t, ht, hn⟩
    obtain ⟨n', hn', htext⟩ := ofText?_of_parses ht
    rw [hn] at hn'
    cases hn'
    exact htext

end TreeQuery.Query
