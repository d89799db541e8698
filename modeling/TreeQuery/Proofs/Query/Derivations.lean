import Mathlib.Data.List.Forall2
import TreeQuery.Proofs.Query.AnchorTrees
import TreeQuery.Proofs.Query.Phrases

namespace TreeQuery.Query

open Text Grammar
open Grammar.Expr (sign blanks loosely manyLoosely)
open Token (cut? isOperatorChar)

variable {cs rest : List Char} {ts : List QueryTree} {e f : Expr Rule}

/-- Each rule but those for the text between delimiters takes something. -/
def Rule.takes : Rule → Bool
  | regexBody | quotedBody => false
  | _ => true

theorem Rule.takes_body (r : Rule) (h : r.takes = true) :
    (rules r).body.takes Rule.takes = true := by
  cases r <;> first | rfl | cases h

theorem length_lt (h : Parses rules e cs (some (ts, rest))) (he : e.takes Rule.takes = true) :
    rest.length < cs.length :=
  h.length_lt Rule.takes_body he

section Cut

variable {wanting : Bool} {tok : Token} {toks : List Token}

theorem length_of_literal? {l : Literal} (h : literal? cs = some (l, rest)) :
    rest.length < cs.length := by
  obtain ⟨t, _, ht⟩ := realizes_anchor.found h
  exact length_lt ht rfl

theorem length_capture_le (cs : List Char) : (Token.capture cs).2.length ≤ cs.length := by
  obtain ⟨ts, _, ht⟩ := parses_capture cs
  exact ht.length_le

/-- A token where a node is called for. -/
theorem node?_eq_some : token? true cs = some (tok, rest) ↔
    (tok = .openBrace ∧ cs = '{' :: rest) ∨
      ∃ l, tok = .anchor l ∧ cs.head? ≠ some '{' ∧ literal? cs = some (l, rest) := by
  change Token.node? cs = _ ↔ _
  unfold Token.node?
  split
  · rename_i cs
    simp [eq_comm]
  · rename_i hno
    have hhead : cs.head? ≠ some '{' := by
      intro hh
      obtain ⟨tail, ht⟩ := List.head?_eq_some_iff.mp hh
      exact hno tail ht
    have hcs : cs ≠ '{' :: rest := fun he => hno rest he
    rw [anchor?_eq, Option.map_eq_some_iff]
    constructor
    · intro ⟨x, hx, he⟩
      cases he
      exact .inr ⟨x.1, rfl, hhead, hx⟩
    · intro h
      rcases h with ⟨_, he⟩ | ⟨l, ht, _, hl⟩
      · exact absurd he hcs
      · exact ⟨(l, rest), hl, by rw [ht]⟩

/-- What is left after the closing brace of a group and its capture. -/
def afterBrace (cs : List Char) : List Char :=
  match Token.capture (skipBlanks cs) with
  | (some _, rest) => rest
  | (none, _) => cs

/-- A token where a constraint is called for. -/
inductive ConstraintToken : List Char → Token → List Char → Prop
  | not {after} : ConstraintToken ('!' :: after) .not after
  | optional {after} : ConstraintToken ('?' :: after) .optional after
  | bar {after} : ConstraintToken ('|' :: after) .bar after
  | openBracket {after} : ConstraintToken ('[' :: after) .openBracket after
  | closeBracket {after} : ConstraintToken (']' :: after) .closeBracket after
  | openBrace {after} : ConstraintToken ('{' :: after) .openBrace after
  | closeBrace {after} : ConstraintToken ('}' :: after)
      (.closeBrace (Token.capture (skipBlanks after)).1) (afterBrace after)
  | operator {text symbol after} : run? isOperatorChar isOperatorChar text = some (symbol, after) →
      ConstraintToken text (.operator symbol) after

theorem constraintToken_of_token? (h : token? false cs = some (tok, rest)) :
    ConstraintToken cs tok rest := by
  change Token.constraint? cs = _ at h
  unfold Token.constraint? at h
  split at h
  case h_1 => cases h
  case h_8 cs =>
    split at h
    · rename_i v after hc
      cases h
      have hbrace := @ConstraintToken.closeBrace cs
      simpa [hc, afterBrace] using hbrace
    · rename_i after hc
      cases h
      have hbrace := @ConstraintToken.closeBrace rest
      simpa [hc, afterBrace] using hbrace
  case h_9 c cs _ _ _ _ _ _ _ =>
    split at h
    · rename_i ho
      cases h
      exact .operator (by simp [run?, ho])
    · cases h
  all_goals
    cases h
    constructor

theorem ConstraintToken.token? (h : ConstraintToken cs tok rest) :
    token? false cs = some (tok, rest) := by
  change Token.constraint? cs = _
  cases h with
  | closeBrace =>
    rename_i after
    rw [Token.constraint?]
    rcases hc : Token.capture (skipBlanks after) with ⟨_ | v, left⟩ <;> simp [afterBrace, hc]
  | operator h =>
    cases cs with
    | nil => cases h
    | cons c cs =>
      by_cases hc : isOperatorChar c = true
      · simp only [run?, hc, ↓reduceIte, Option.some.injEq, Prod.mk.injEq] at h
        obtain ⟨hs, hr⟩ := h
        obtain ⟨_, hm⟩ := operatorChar_head hc
        rw [Token.constraint?]
        · rw [if_pos hc, hs, hr]
        -- no other token begins with a character of operators
        all_goals
          intro he
          subst c
          simp at hm
      · simp [run?, hc] at h
  | _ => rfl

theorem constraint?_eq_some :
    token? false cs = some (tok, rest) ↔ ConstraintToken cs tok rest :=
  ⟨constraintToken_of_token?, ConstraintToken.token?⟩

theorem length_of_token? (h : token? wanting cs = some (tok, rest)) : rest.length < cs.length := by
  cases wanting with
  | true =>
    rcases node?_eq_some.mp h with ⟨_, hcs⟩ | ⟨l, _, _, hl⟩
    · simp [hcs]
    · exact length_of_literal? hl
  | false =>
    cases constraint?_eq_some.mp h with
    | closeBrace =>
      rename_i after
      have hcapture := length_capture_le (skipBlanks after)
      have hskip := length_skipBlanks_le after
      rw [afterBrace, List.length_cons]
      split
      · rename_i hc
        rw [hc] at hcapture
        simp only at hcapture
        omega
      · omega
    | operator h =>
      cases cs with
      | nil => cases h
      | cons c cs =>
        have hdrop := (List.dropWhile_suffix isOperatorChar (l := cs)).length_le
        by_cases hc : isOperatorChar c = true
        · simp only [run?, hc, ↓reduceIte, Option.some.injEq, Prod.mk.injEq] at h
          rw [← h.2, List.length_cons]
          omega
        · simp [run?, hc] at h
    | _ => simp

theorem visible_of_base? {b : Base} (h : Token.base? cs = some (b, rest)) : skipBlanks cs = cs := by
  apply skipBlanks_of_visible
  intro c hc
  obtain ⟨tail, ht⟩ := List.head?_eq_some_iff.mp hc
  subst cs
  cases hb : isBlank c with
  | false => rfl
  | true =>
    simp only [isBlank, Bool.or_eq_true, decide_eq_true_eq] at hb
    rcases hb with ((hb | hb) | hb) | hb
    all_goals
      subst c
      cases h

theorem visible_of_token? (h : token? wanting cs = some (tok, rest)) : skipBlanks cs = cs := by
  have hsign {c : Char} {tail : List Char} (hc : isBlank c = false) :
      skipBlanks (c :: tail) = c :: tail :=
    skipBlanks_of_visible fun d hd => by cases hd; exact hc
  cases wanting with
  | true =>
    rcases node?_eq_some.mp h with ⟨_, hcs⟩ | ⟨l, _, _, hl⟩
    · subst cs
      exact hsign rfl
    · obtain ⟨x, hx, _⟩ := Option.map_eq_some_iff.mp hl
      exact visible_of_base? hx
  | false =>
    cases constraint?_eq_some.mp h with
    | operator h =>
      cases cs with
      | nil => cases h
      | cons c cs =>
        by_cases hc : isOperatorChar c = true
        · exact hsign (operatorChar_head hc).1
        · simp [run?, hc] at h
    | _ => exact hsign rfl

theorem cut?_of_nil (h : skipBlanks cs = []) : cut? wanting cs = some [] := by
  rw [cut?, h]

theorem cut?_of_cons {c : Char} {tail : List Char} (h : skipBlanks cs = c :: tail) :
    cut? wanting cs = (token? wanting (c :: tail)).bind fun x =>
      (cut? x.1.wantsNode x.2).map (x.1 :: ·) := by
  cases htok : token? wanting (c :: tail) with
  | none =>
    rw [cut?, h]
    change (token? wanting (c :: tail)).bind _ = _
    rw [htok]
    rfl
  | some x =>
    have hlt := length_of_token? (show _ = some (x.1, x.2) from htok)
    exact cut?_of_token? h (show _ = some (x.1, x.2) from htok) (Nat.le_of_lt_succ hlt)

theorem cut?_skipBlanks (wanting : Bool) (cs : List Char) :
    cut? wanting (skipBlanks cs) = cut? wanting cs := by
  have hidem : skipBlanks (skipBlanks cs) = skipBlanks cs :=
    skipBlanks_of_visible fun c => head_dropWhile
  cases h : skipBlanks cs with
  | nil =>
    rw [h] at hidem
    rw [cut?_of_nil h, cut?_of_nil hidem]
  | cons c tail =>
    rw [h] at hidem
    rw [cut?_of_cons h, cut?_of_cons hidem]

/-- A token and what is cut after it. -/
theorem cut?_token (h : token? wanting cs = some (tok, rest)) :
    cut? wanting cs = (cut? tok.wantsNode rest).map (tok :: ·) := by
  cases cs with
  | nil => cases length_of_token? h
  | cons c tail =>
    rw [cut?_of_cons (visible_of_token? h), h]
    rfl

/-- Tokens in front of tokens. -/
theorem map_append_tokens (x : Option (List Token)) (as bs : List Token) :
    (x.map (bs ++ ·)).map (as ++ ·) = x.map ((as ++ bs) ++ ·) := by
  rw [Option.map_map]
  congr 1
  funext ts
  exact (List.append_assoc as bs ts).symm

theorem map_cons_tokens (x : Option (List Token)) (tok : Token) (as : List Token) :
    (x.map (as ++ ·)).map (tok :: ·) = x.map ((tok :: as) ++ ·) :=
  map_append_tokens x [tok] as

theorem cut?_eq_nil (h : cut? wanting cs = some []) : skipBlanks cs = [] := by
  cases hcs : skipBlanks cs with
  | nil => rfl
  | cons c tail =>
    rw [cut?_of_cons hcs] at h
    obtain ⟨x, _, hx⟩ := Option.bind_eq_some_iff.mp h
    obtain ⟨_, _, he⟩ := Option.map_eq_some_iff.mp hx
    cases he

theorem cut?_eq_cons (h : cut? wanting cs = some (tok :: toks)) : ∃ rest,
    token? wanting (skipBlanks cs) = some (tok, rest) ∧ cut? tok.wantsNode rest = some toks := by
  cases hcs : skipBlanks cs with
  | nil =>
    rw [cut?_of_nil hcs] at h
    cases h
  | cons c tail =>
    rw [cut?_of_cons hcs] at h
    obtain ⟨x, hx, h⟩ := Option.bind_eq_some_iff.mp h
    obtain ⟨more, hmore, he⟩ := Option.map_eq_some_iff.mp h
    cases he
    exact ⟨x.2, hx, hmore⟩

/-- Blanks in front of no capture make no difference. -/
theorem cut?_afterBrace (wanting : Bool) (cs : List Char) :
    cut? wanting (afterBrace cs) = cut? wanting (Token.capture (skipBlanks cs)).2 := by
  rw [afterBrace]
  split
  · rename_i hc
    rw [hc]
  · rename_i left hc
    have hleft : left = skipBlanks cs := by
      unfold Token.capture at hc
      split at hc
      · split at hc
        · cases hc
        · exact (Prod.mk.inj hc).2.symm
      · exact (Prod.mk.inj hc).2.symm
    rw [hc, hleft, cut?_skipBlanks]

end Cut

/-- The one tree that the expression gives at the text stands for a phrase, and the tokens of the
phrase are cut off the text. -/
def Sound (e : Expr Rule) (value : QueryTree → Option Phrase) (role : Role)
    (tokens : Phrase → List Token) (wanting : Bool) (cs : List Char) : Prop :=
  ∀ ts rest, Parses rules e cs (some (ts, rest)) → ∃ t p, ts = [t] ∧ value t = some p ∧
    Shaped role p ∧ cut? wanting cs = (cut? false rest).map (tokens p ++ ·)

section Repetition

variable {value : QueryTree → Option Phrase} {role : Role} {tokens : Phrase → List Token}

/-- The trees stand for phrases, one by one, with the tokens that are cut off the text. -/
def SoundAll (value : QueryTree → Option Phrase) (role : Role) (tokens : Phrase → List Token)
    (cs : List Char) (ts : List QueryTree) (rest : List Char) : Prop :=
  ∃ ps, List.Forall₂ (fun t p => value t = some p) ts ps ∧ (∀ p ∈ ps, Shaped role p) ∧
    cut? false cs = (cut? false rest).map (ps.flatMap tokens ++ ·)

theorem soundAll_nil : SoundAll value role tokens cs [] cs :=
  ⟨[], .nil, by simp, by simp⟩

theorem SoundAll.cons {mid : List Char} {us : List QueryTree}
    (he : Sound e value role tokens false cs)
    (hp : Parses rules e cs (some (us, mid))) (h : SoundAll value role tokens mid ts rest) :
    SoundAll value role tokens cs (us ++ ts) rest := by
  obtain ⟨t, p, ht, hv, hs, hcut⟩ := he us mid hp
  obtain ⟨ps, hvs, hss, hcuts⟩ := h
  subst us
  refine ⟨p :: ps, .cons hv hvs, List.forall_mem_cons.mpr ⟨hs, hss⟩, ?_⟩
  rw [hcut, hcuts, map_append_tokens, List.flatMap_cons]

theorem SoundAll.skipBlanks (h : SoundAll value role tokens (skipBlanks cs) ts rest) :
    SoundAll value role tokens cs ts rest := by
  obtain ⟨ps, hvs, hss, hcuts⟩ := h
  exact ⟨ps, hvs, hss, by rw [← cut?_skipBlanks, hcuts]⟩

theorem soundAll_manyLoosely
    (he : ∀ ds, ds.length ≤ cs.length → Sound e value role tokens false ds)
    (hp : Parses rules (manyLoosely e) cs (some (ts, rest))) :
    SoundAll value role tokens cs ts rest :=
  hp.manyLoosely_induction (fun _ => soundAll_nil) (fun _ _ _ h => h.skipBlanks)
    fun _ _ _ _ _ hds hturn h => h.cons (he _ hds) hturn

end Repetition

section Rules

open QueryTree

/-- What `Sound` says of the other rules, for the rule of a node. -/
def SoundNode (cs : List Char) : Prop :=
  ∀ ts rest, Parses rules (.rule .node) cs (some (ts, rest)) → ∃ t n, ts = [t] ∧
    node? t = some n ∧ n.Shaped ∧ cut? true cs = (cut? false rest).map (n.tokens ++ ·)

abbrev SoundUnary (cs : List Char) : Prop :=
  Sound (.rule .unary) unary? .unary Phrase.tokens false cs

abbrev SoundConstraint (cs : List Char) : Prop :=
  Sound (.rule .alternative) constraint? .constraint Phrase.tokens false cs

theorem sound_group (hnode : ∀ ds, ds.length < cs.length → SoundNode ds)
    (hp : Parses rules (.rule .group) cs (some (ts, rest))) :
    ∃ text parts p, ts = [.node .group text parts] ∧ braced? parts = some p ∧ Shaped .braced p ∧
      ∀ wanting, cut? wanting cs = (cut? false rest).map (p.tokens ++ ·) := by
  obtain ⟨parts, hbody, ht⟩ := parses_rule.mp hp
  obtain ⟨inner, hcs, hinner⟩ := parses_signLoosely.mp hbody
  obtain ⟨us, mid, vs, hn, hclosing, hparts⟩ := parses_loosely.mp hinner
  obtain ⟨after, hmid, hcapture⟩ := parses_signLoosely.mp hclosing
  subst cs parts
  have hskip := length_skipBlanks_le inner
  obtain ⟨t, n, hus, hv, hs, hcut⟩ := hnode (skipBlanks inner) (by simp; omega) us mid hn
  obtain ⟨ws, hws, hcapture'⟩ := parses_capture (skipBlanks after)
  cases hcapture.unique hcapture'
  subst us
  refine ⟨_, _, .group n.head n.constraints (Token.capture (skipBlanks after)).1, ht, ?_, ?_, ?_⟩
  · simp [braced?, hv, hws]
  · exact .group _ hs.head hs.constraints
  · intro wanting
    have hbrace : token? wanting ('{' :: inner) = some (.openBrace, inner) := by
      cases wanting <;> rfl
    have hopen : cut? wanting ('{' :: inner) = (cut? true inner).map (.openBrace :: ·) :=
      cut?_token hbrace
    have hclose : cut? false ('}' :: after) = (cut? false (afterBrace after)).map
        ([.closeBrace (Token.capture (skipBlanks after)).1] ++ ·) :=
      cut?_token (constraint?_eq_some.mpr .closeBrace)
    rw [hopen, ← cut?_skipBlanks, hcut, ← cut?_skipBlanks false mid, hmid, hclose, cut?_afterBrace,
      map_append_tokens, map_cons_tokens]
    rfl

theorem literal?_openBrace : literal? ('{' :: cs) = none :=
  rfl

theorem head_of_literal? {l : Literal} (h : literal? cs = some (l, rest)) :
    cs.head? ≠ some '{' := by
  intro hhead
  obtain ⟨inner, hcs⟩ := List.head?_eq_some_iff.mp hhead
  rw [hcs, literal?_openBrace] at h
  cases h

theorem cut?_literal? {l : Literal} (h : literal? cs = some (l, rest)) :
    cut? true cs = (cut? false rest).map (.anchor l :: ·) :=
  cut?_token (node?_eq_some.mpr (.inr ⟨l, rfl, head_of_literal? h, h⟩))

theorem item?_of_literal? {t : QueryTree} {l : Literal} (h : t.literal? = some l) :
    t.item? = some (.anchor l) := by
  cases t with
  | node r text parts =>
    cases r with
    | anchor => simp [item?, h]
    | _ => cases h

/-- A group, or an anchor by any rule. -/
theorem sound_item {value : QueryTree → Option Literal} (he : Realizes e literal? value)
    (hitem : ∀ t l, value t = some l → t.item? = some (.anchor l))
    (hnode : ∀ ds, ds.length < cs.length → SoundNode ds) :
    Sound (.choice (.rule .group) e) item? .item Phrase.tokens true cs := by
  intro ts rest hp
  rcases parses_choice.mp hp with hgroup | ⟨_, hanchor⟩
  · obtain ⟨text, parts, p, ht, hv, hs, hcut⟩ := sound_group hnode hgroup
    exact ⟨_, p, ht, by rw [item?, hv], .bracedItem hs, hcut true⟩
  · obtain ⟨t, l, ht, hv, hread⟩ := he.of_parses hanchor
    exact ⟨t, .anchor l, ht, hitem t l hv, .anchor l, cut?_literal? hread⟩

def bareNode? : QueryTree → Option Literal
  | .node .bareNode _ [a] => QueryTree.literal? a
  | _ => none

theorem realizes_bareNode : Realizes (.rule .bareNode) literal? bareNode? where
  found := by
    intro cs l rest h
    obtain ⟨t, ht, hp⟩ := realizes_anchor.found h
    exact ⟨.node .bareNode (taken cs rest) [t], ht, .rule hp⟩
  missing h := .ruleFails (realizes_anchor.missing h)

theorem item?_of_bareNode? {t : QueryTree} {l : Literal} (h : bareNode? t = some l) :
    t.item? = some (.anchor l) := by
  unfold bareNode? at h
  split at h
  · rw [item?, h]
    rfl
  · cases h

theorem sound_operand (hnode : ∀ ds, ds.length < cs.length → SoundNode ds) :
    Sound (.rule .operand) item? .item Phrase.tokens true cs := by
  intro ts rest hp
  obtain ⟨us, hbody, ht⟩ := parses_rule.mp hp
  subst ht
  exact sound_item realizes_bareNode (fun t l => item?_of_bareNode?) hnode _ rest hbody

/-- A sign in front of a constraint. -/
theorem sound_prefixed {r : Rule} {c : Char} {tok : Token} {wrap : Phrase → Phrase}
    (hr : rules r = ⟨.tree, loosely (sign c) (.rule .unary)⟩)
    (htok : ∀ inner, token? false (c :: inner) = some (tok, inner)) (hwants : tok.wantsNode = false)
    (hwrap : ∀ p, (wrap p).tokens = tok :: p.tokens)
    (hshaped : ∀ p, Shaped .unary p → Shaped .unary (wrap p))
    (hvalue : ∀ text u, unary? (.node r text [u]) = (unary? u).map wrap)
    (hunary : ∀ ds, ds.length < cs.length → SoundUnary ds) :
    Sound (.rule r) unary? .unary Phrase.tokens false cs := by
  intro ts rest hp
  obtain ⟨us, hbody, ht⟩ := parses_rule.mp hp
  rw [hr] at hbody ht
  obtain ⟨inner, hcs, hinner⟩ := parses_signLoosely.mp hbody
  subst cs
  have hskip := length_skipBlanks_le inner
  obtain ⟨t, p, hus, hv, hs, hcut⟩ := hunary (skipBlanks inner) (by simp; omega) us rest hinner
  subst us
  refine ⟨_, wrap p, ht, by rw [hvalue, hv]; rfl, hshaped p hs, ?_⟩
  rw [cut?_token (htok inner), hwants, ← cut?_skipBlanks, hcut, map_cons_tokens, hwrap]

theorem constraints?_of_forall₂ {ps : List Phrase}
    (h : List.Forall₂ (fun t p => constraint? t = some p) ts ps) : constraints? ts = some ps := by
  induction h with
  | nil => rfl
  | cons hv _ ih => simp [constraints?, hv, ih]

theorem arms?_of_forall₂ {ps : List Phrase}
    (h : List.Forall₂ (fun t p => unary? t = some p) ts ps) : arms? ts = some ps := by
  induction h with
  | nil => rfl
  | cons hv _ ih => simp [arms?, hv, ih]

theorem flatMap_tokens (ps : List Phrase) : ps.flatMap Phrase.tokens = tokensAll ps := by
  induction ps with
  | nil => rfl
  | cons p ps ih => rw [List.flatMap_cons, ih, tokensAll]

theorem flatMap_barred (ps : List Phrase) :
    ps.flatMap (fun p => .bar :: p.tokens) = tokensBarred ps := by
  induction ps with
  | nil => rfl
  | cons p ps ih => rw [List.flatMap_cons, ih, tokensBarred]

theorem sound_constraintGroup (hconstraint : ∀ ds, ds.length < cs.length → SoundConstraint ds) :
    Sound (.rule .constraintGroup) unary? .unary Phrase.tokens false cs := by
  intro ts rest hp
  obtain ⟨parts, hbody, ht⟩ := parses_rule.mp hp
  obtain ⟨inner, hcs, hinner⟩ := parses_signLoosely.mp hbody
  obtain ⟨us, mid, vs, hmembers, hclosing, hparts⟩ := parses_loosely.mp hinner
  obtain ⟨us₁, mid₁, us₂, hfirst, hmore, hus⟩ := parses_loosely.mp hmembers
  obtain ⟨hvs, hmid⟩ := parses_sign.mp hclosing
  subst cs vs us parts
  have hskip := length_skipBlanks_le inner
  have hskip₁ := length_skipBlanks_le mid₁
  have hle := hfirst.length_le
  have hc : ∀ ds, ds.length ≤ inner.length → SoundConstraint ds := by
    intro ds hds
    apply hconstraint
    simp
    omega
  have hall := soundAll_manyLoosely (fun ds hds => hc ds (by omega)) hmore
  obtain ⟨ps, hvs, hss, hcuts⟩ := hall
  obtain ⟨t, p, hus₁, hv, hs, hcut⟩ := hc (skipBlanks inner) hskip us₁ mid₁ hfirst
  subst us₁
  refine ⟨_, .all (p :: ps), ht, ?_, .all (by simp) (List.forall_mem_cons.mpr ⟨hs, hss⟩), ?_⟩
  · simp [unary?, constraints?, hv, constraints?_of_forall₂ hvs]
  · have hopen : cut? false ('[' :: inner) = (cut? false inner).map (.openBracket :: ·) :=
      cut?_token (constraint?_eq_some.mpr .openBracket)
    have hclose : cut? false (']' :: rest) = (cut? false rest).map ([.closeBracket] ++ ·) :=
      cut?_token (constraint?_eq_some.mpr .closeBracket)
    rw [hopen, ← cut?_skipBlanks, hcut, ← cut?_skipBlanks false mid₁, hcuts,
      ← cut?_skipBlanks false mid, hmid, hclose, flatMap_tokens, map_append_tokens,
      map_append_tokens, map_cons_tokens]
    rfl

theorem sound_relation (hnode : ∀ ds, ds.length < cs.length → SoundNode ds) :
    Sound (.rule .relation) unary? .unary Phrase.tokens false cs := by
  intro ts rest hp
  obtain ⟨parts, hbody, ht⟩ := parses_rule.mp hp
  obtain ⟨us, mid, vs, hoperator, hoperand, hparts⟩ := parses_loosely.mp hbody
  subst parts
  have hskip := length_skipBlanks_le mid
  have hlt := length_lt hoperator rfl
  obtain ⟨o, symbol, hus, ho, hread⟩ := realizes_operator.of_parses hoperator
  obtain ⟨t, p, hvs, hv, hs, hcut⟩ := sound_operand
    (fun ds hds => hnode ds (by omega)) vs rest hoperand
  subst us vs
  refine ⟨_, .relation symbol p, ht, ?_, .relation symbol hs, ?_⟩
  · unfold QueryTree.symbol? at ho
    split at ho
    · cases ho
      simp [unary?, hv]
    · cases ho
  · have hsymbol : cut? false cs = (cut? true mid).map (.operator symbol :: ·) :=
      cut?_token (constraint?_eq_some.mpr (.operator hread))
    rw [hsymbol, ← cut?_skipBlanks, hcut, map_cons_tokens]
    rfl

theorem unary?_negation (text : String) (u : QueryTree) :
    unary? (.node .negation text [u]) = (unary? u).map .not := by
  rw [unary?]

theorem unary?_reluctant (text : String) (u : QueryTree) :
    unary? (.node .reluctant text [u]) = (unary? u).map .optional := by
  rw [unary?]

theorem sound_unary (hnode : ∀ ds, ds.length < cs.length → SoundNode ds)
    (hunary : ∀ ds, ds.length < cs.length → SoundUnary ds)
    (hconstraint : ∀ ds, ds.length < cs.length → SoundConstraint ds) : SoundUnary cs := by
  intro ts rest hp
  obtain ⟨us, hbody, ht⟩ := parses_rule.mp hp
  subst ht
  rcases parses_choice.mp hbody with h | ⟨_, h⟩
  · exact sound_prefixed rfl (fun _ => rfl) rfl (fun _ => rfl) (fun _ => .not)
      unary?_negation hunary ts rest h
  rcases parses_choice.mp h with h | ⟨_, h⟩
  · exact sound_prefixed rfl (fun _ => rfl) rfl (fun _ => rfl) (fun _ => .optional)
      unary?_reluctant hunary ts rest h
  rcases parses_choice.mp h with h | ⟨_, h⟩
  · exact sound_constraintGroup hconstraint ts rest h
  rcases parses_choice.mp h with h | ⟨_, h⟩
  · obtain ⟨text, parts, p, ht, hv, hs, hcut⟩ := sound_group hnode h
    exact ⟨_, p, ht, by rw [unary?, hv], .bracedUnary hs, hcut false⟩
  · exact sound_relation hnode ts rest h

theorem sound_bar (hunary : ∀ ds, ds.length < cs.length → SoundUnary ds) :
    Sound (loosely (sign '|') (.rule .unary)) unary? .unary (fun p => .bar :: p.tokens) false
      cs := by
  intro ts rest hp
  obtain ⟨inner, hcs, hinner⟩ := parses_signLoosely.mp hp
  subst cs
  have hskip := length_skipBlanks_le inner
  obtain ⟨t, p, ht, hv, hs, hcut⟩ := hunary (skipBlanks inner) (by simp; omega) ts rest hinner
  refine ⟨t, p, ht, hv, hs, ?_⟩
  have hbar : cut? false ('|' :: inner) = (cut? false inner).map (.bar :: ·) :=
    cut?_token (constraint?_eq_some.mpr .bar)
  rw [hbar, ← cut?_skipBlanks, hcut, map_cons_tokens]

theorem sound_alternative (hunary : ∀ ds, ds.length ≤ cs.length → SoundUnary ds) :
    SoundConstraint cs := by
  intro ts rest hp
  obtain ⟨parts, hbody, ht⟩ := parses_rule.mp hp
  obtain ⟨us, mid, vs, hfirst, hmore, hparts⟩ := parses_loosely.mp hbody
  subst parts
  have hskip := length_skipBlanks_le mid
  have hle := hfirst.length_le
  have hbars : ∀ ds, ds.length ≤ cs.length →
      Sound (loosely (sign '|') (.rule .unary)) unary? .unary (fun p => .bar :: p.tokens) false
        ds :=
    fun ds hds => sound_bar fun ds' hds' => hunary ds' (by omega)
  have hall := soundAll_manyLoosely (fun ds hds => hbars ds (by omega)) hmore
  obtain ⟨ps, hvs, hss, hcuts⟩ := hall
  obtain ⟨t, p, hus, hv, hs, hcut⟩ := hunary cs (Nat.le_refl _) us mid hfirst
  subst us
  have harms : Arms.Shaped ⟨p, ps⟩ := ⟨hs, hss⟩
  refine ⟨_, Arms.toPhrase ⟨p, ps⟩, ht, ?_, harms.toPhrase, ?_⟩
  · simp [constraint?, arms?, hv, arms?_of_forall₂ hvs, joined?]
  · rw [hcut, ← cut?_skipBlanks false mid, hcuts, flatMap_barred, map_append_tokens,
      Arms.toPhrase_tokens]
    rfl

theorem sound_node (hnode : ∀ ds, ds.length < cs.length → SoundNode ds)
    (hconstraint : ∀ ds, ds.length ≤ cs.length → SoundConstraint ds) : SoundNode cs := by
  intro ts rest hp
  obtain ⟨parts, hbody, ht⟩ := parses_rule.mp hp
  obtain ⟨us, mid, vs, hhead, hmore, hparts⟩ := parses_loosely.mp hbody
  subst parts
  have hskip := length_skipBlanks_le mid
  have hle := hhead.length_le
  have hall := soundAll_manyLoosely (fun ds hds => hconstraint ds (by omega)) hmore
  obtain ⟨ps, hvs, hss, hcuts⟩ := hall
  obtain ⟨t, p, hus, hv, hs, hcut⟩ :=
    sound_item realizes_anchor (fun t l => item?_of_literal?) hnode us mid hhead
  subst us
  refine ⟨_, ⟨p, ps⟩, ht, ?_, ⟨hs, hss⟩, ?_⟩
  · simp [node?, hv, constraints?_of_forall₂ hvs]
  · rw [hcut, ← cut?_skipBlanks false mid, hcuts, flatMap_tokens, map_append_tokens]
    rfl

theorem sound_rules (cs : List Char) : SoundUnary cs ∧ SoundConstraint cs ∧ SoundNode cs := by
  induction hn : cs.length using Nat.strongRecOn generalizing cs with
  | _ n ih =>
    subst hn
    -- Of one text a constraint begins with its first alternative, and a node may be one group, so
    -- they come in this order; everything else within is shorter.
    have hunary : ∀ ds, ds.length ≤ cs.length → SoundUnary ds := by
      intro ds hds
      apply sound_unary
      · exact fun ds' hds' => (ih _ (by omega) ds' rfl).2.2
      · exact fun ds' hds' => (ih _ (by omega) ds' rfl).1
      · exact fun ds' hds' => (ih _ (by omega) ds' rfl).2.1
    have hconstraint : ∀ ds, ds.length ≤ cs.length → SoundConstraint ds :=
      fun ds hds => sound_alternative fun ds' hds' => hunary ds' (by omega)
    refine ⟨hunary cs (Nat.le_refl _), hconstraint cs (Nat.le_refl _), sound_node ?_ hconstraint⟩
    exact fun ds hds => (ih _ hds ds rfl).2.2

/-- The fallbacks are never taken: each parse tree is one of a query, with the phrase that is read
off its text. -/
theorem ofText?_of_parses {text : String} {t : QueryTree} (h : IsParseTree text t) :
    ∃ n, t.query? = some n ∧ NodePhrase.ofText? text.toList = some n := by
  obtain ⟨parts, hbody, ht⟩ := parses_rule.mp h
  obtain ⟨us, mid, vs, hnode, hend, hparts⟩ := parses_loosely.mp (parses_blanks.mp hbody)
  obtain ⟨t', n, hus, hv, hs, hcut⟩ := (sound_rules _).2.2 us mid hnode
  obtain ⟨hvs, hmid, _⟩ := parses_end.mp hend
  subst us parts vs
  have ht' : t = .node .query (taken text.toList []) [t'] := (List.cons.inj ht).1
  refine ⟨n, by rw [ht', query?, hv], ?_⟩
  rw [NodePhrase.ofText?, ← cut?_skipBlanks, hcut, cut?_of_nil hmid]
  simpa using NodePhrase.ofTokens?_eq_some.mpr ⟨hs, rfl⟩

end Rules

end TreeQuery.Query
