import TreeQuery.Proofs.Bracket.Tokens

namespace TreeQuery.Bracket

open Token (spelling spelling_cons Chain)

mutual

/-- The tokens between a bracket's parentheses. -/
def inner : Bracket → List Token
  | leaf label word => [.word label, .word word]
  | phrase label children => label.toList.map .word ++ tokensAll children
  | lexical category pos formerPos word predicate =>
    [.lexical category pos formerPos word predicate]
  | derived category head arity children => .derived category head arity :: tokensAll children

def tokensAll : List Bracket → List Token
  | [] => []
  | b :: bs => .openBracket :: b.inner ++ .closeBracket :: tokensAll bs

end

def tokens (b : Bracket) : List Token :=
  .openBracket :: b.inner ++ [.closeBracket]

theorem tokens_append (b : Bracket) (ts : List Token) :
    b.tokens ++ ts = .openBracket :: (b.inner ++ .closeBracket :: ts) := by
  simp [tokens]

theorem tokensAll_cons (b : Bracket) (bs : List Bracket) :
    tokensAll (b :: bs) = b.tokens ++ tokensAll bs := by
  simp [tokensAll, tokens]

theorem tokensAll_append (bs cs : List Bracket) :
    tokensAll (bs ++ cs) = tokensAll bs ++ tokensAll cs := by
  induction bs with
  | nil => rfl
  | cons b bs ih => rw [List.cons_append, tokensAll_cons, tokensAll_cons, ih, List.append_assoc]

theorem tokensAll_singleton (b : Bracket) : tokensAll [b] = b.tokens :=
  rfl

theorem spelling_append (ts us : List Token) : spelling (ts ++ us) = spelling ts ++ spelling us :=
  List.flatMap_append

theorem spelling_words (l : Option String) :
    spelling (l.toList.map .word) = l.toList.map .text := by
  cases l <;> rfl

mutual

/-- The tokens of a bracket and its lexemes are the same text. -/
theorem spelling_tokens : ∀ b : Bracket, spelling b.tokens = b.lexemes
  | leaf label word => rfl
  | phrase label children => by
    have hs := spelling_tokensAll children
    rw [tokens, inner, spelling_append, spelling_cons, spelling_append, spelling_words, hs, lexemes]
    rfl
  | lexical category pos formerPos word predicate => by
    rw [tokens, inner, lexemes]
    cases predicate <;> rfl
  | derived category head arity children => by
    have hs := spelling_tokensAll children
    rw [tokens, inner, spelling_append, spelling_cons, spelling_cons, hs, lexemes]
    rfl

theorem spelling_tokensAll : ∀ bs : List Bracket, spelling (tokensAll bs) = lexemesAll bs
  | [] => rfl
  | b :: bs => by
    rw [tokensAll_cons, spelling_append, spelling_tokens b, spelling_tokensAll bs, lexemesAll]

end

namespace Part

def Proper : Part → Prop
  | opened => True
  | labelled label => IsLabel label
  | complete b => b.Proper
  | plain label children =>
    (∀ l ∈ label, IsLabel l) ∧ children ≠ [] ∧ ∀ b ∈ children, b.Proper
  | derivation category head arity children =>
    IsField category ∧ Numeral.isNumeral head.toList = true ∧
      Numeral.isNumeral arity.toList = true ∧ ∀ b ∈ children, b.Proper

/-- The tokens from the opening parenthesis on. -/
def tokens : Part → List Token
  | opened => [.openBracket]
  | labelled label => [.openBracket, .word label]
  | complete b => .openBracket :: b.inner
  | plain label children => .openBracket :: label.toList.map .word ++ tokensAll children.reverse
  | derivation category head arity children =>
    .openBracket :: .derived category head arity :: tokensAll children.reverse

theorem tokensAll_reverse_cons (b : Bracket) (bs : List Bracket) :
    tokensAll (b :: bs).reverse = tokensAll bs.reverse ++ b.tokens := by
  rw [List.reverse_cons, tokensAll_append, tokensAll_singleton]

theorem child_grows {part part' : Part} {b : Bracket} (hp : part.Proper) (hb : b.Proper)
    (h : part.child? b = some part') :
    part'.Proper ∧ part' ≠ opened ∧ part'.tokens = part.tokens ++ b.tokens := by
  cases part with
  | opened =>
    cases h
    exact ⟨⟨fun l hl => (by cases hl), by simp, by simpa using hb⟩, by simp, rfl⟩
  | labelled label =>
    cases h
    refine ⟨⟨fun l hl => ?_, by simp, by simpa using hb⟩, by simp, rfl⟩
    cases hl
    exact hp
  | complete c => cases h
  | plain label children =>
    cases h
    obtain ⟨hl, _, hc⟩ := hp
    refine ⟨⟨hl, by simp, List.forall_mem_cons.mpr ⟨hb, hc⟩⟩, by simp, ?_⟩
    simp only [tokens, tokensAll_reverse_cons, List.append_assoc, List.cons_append]
  | derivation category head arity children =>
    cases h
    obtain ⟨hcat, hh, ha, hc⟩ := hp
    refine ⟨⟨hcat, hh, ha, List.forall_mem_cons.mpr ⟨hb, hc⟩⟩, by simp, ?_⟩
    simp only [tokens, tokensAll_reverse_cons, List.cons_append]

theorem close_grows {part : Part} {b : Bracket} (hp : part.Proper) (h : part.close? = some b) :
    b.Proper ∧ b.tokens = part.tokens ++ [.closeBracket] := by
  cases part with
  | opened => cases h
  | labelled label => cases h
  | complete c =>
    cases h
    exact ⟨hp, rfl⟩
  | plain label children =>
    cases h
    obtain ⟨hl, hne, hc⟩ := hp
    refine ⟨.phrase hl (by simpa using hne) ?_, by simp [Bracket.tokens, tokens, inner]⟩
    exact fun b hb => hc b (List.mem_reverse.mp hb)
  | derivation category head arity children =>
    cases children with
    | nil => cases h
    | cons c cs =>
      cases h
      obtain ⟨hcat, hh, ha, hc⟩ := hp
      refine ⟨.derived hcat hh ha (by simp) ?_, by simp [Bracket.tokens, tokens, inner]⟩
      exact fun b hb => hc b (List.mem_reverse.mp hb)

end Part

namespace Reading

/-- The brackets that are open where the next one would begin, innermost first. -/
def stack? : Reading → Option (List Part)
  | start => some []
  | inside part outer => some (part :: outer)
  | finished _ => none

/-- Takes a whole bracket. -/
def take? : Reading → Bracket → Option Reading
  | start, b => some (finished b)
  | inside part outer, b => (part.child? b).map (inside · outer)
  | finished _, _ => none

/-- Directly after an opening bracket. -/
def isOpened : Reading → Bool
  | inside .opened _ => true
  | _ => false

def Proper : Reading → Prop
  | start => True
  | inside part outer => ∀ p ∈ part :: outer, p.Proper
  | finished b => b.Proper

def tokens : Reading → List Token
  | start => []
  | inside part outer => (part :: outer).reverse.flatMap Part.tokens
  | finished b => b.tokens

theorem next?_open (s : Reading) : s.next? .openBracket = s.stack?.map (inside .opened) := by
  cases s <;> rfl

theorem next?_close {s : Reading} {outer : List Part} (hs : s.stack? = some outer) {part : Part}
    {b : Bracket} (hp : part.close? = some b) :
    (inside part outer).next? .closeBracket = s.take? b := by
  cases s with
  | start =>
    cases hs
    rw [next?, hp]
    rfl
  | inside above rest =>
    cases hs
    rw [next?, hp]
    rfl
  | finished c => cases hs

theorem tokens_inside (part : Part) (outer : List Part) :
    (inside part outer).tokens = outer.reverse.flatMap Part.tokens ++ part.tokens := by
  simp [tokens]

/-- What is read of the innermost bracket is added to all that was read. -/
theorem inside_grows {part part' : Part} {outer : List Part} (hs : (inside part outer).Proper)
    (hp : part'.Proper) {ts : List Token} (ht : part'.tokens = part.tokens ++ ts) :
    (inside part' outer).Proper ∧
      (inside part' outer).tokens = (inside part outer).tokens ++ ts := by
  refine ⟨List.forall_mem_cons.mpr ⟨hp, (List.forall_mem_cons.mp hs).2⟩, ?_⟩
  rw [tokens_inside, tokens_inside, ht, List.append_assoc]

theorem isOpened_inside {part : Part} (h : part ≠ .opened) (outer : List Part) :
    (inside part outer).isOpened = false := by
  cases part <;> first | rfl | exact absurd rfl h

theorem close_grows {s' : Reading} {part : Part} {outer : List Part}
    (hs : (inside part outer).Proper) (h : (inside part outer).next? .closeBracket = some s') :
    s'.Proper ∧ s'.isOpened = false ∧
      s'.tokens = (inside part outer).tokens ++ [.closeBracket] := by
  obtain ⟨hp, hout⟩ := List.forall_mem_cons.mp hs
  cases outer with
  | nil =>
    obtain ⟨b, hb, rfl⟩ := Option.map_eq_some_iff.mp (h : part.close?.map finished = some s')
    obtain ⟨hb, ht⟩ := Part.close_grows hp hb
    refine ⟨hb, rfl, ?_⟩
    rw [tokens_inside, tokens, ht]
    rfl
  | cons above outer =>
    obtain ⟨part', hpart, rfl⟩ := Option.map_eq_some_iff.mp
      (h : (part.close?.bind above.child?).map (inside · outer) = some s')
    obtain ⟨b, hb, hchild⟩ := Option.bind_eq_some_iff.mp hpart
    obtain ⟨hb, ht⟩ := Part.close_grows hp hb
    obtain ⟨hp', hno, ht'⟩ := Part.child_grows (hout above List.mem_cons_self) hb hchild
    have hs' : (inside above outer).Proper := hout
    obtain ⟨hproper, htokens⟩ := inside_grows hs' hp' ht'
    refine ⟨hproper, isOpened_inside hno outer, ?_⟩
    rw [htokens, ht, tokens_inside part]
    simp [tokens]

/-- A word directly after an opening bracket is a label, and after a label the word of a leaf. -/
theorem word_grows {s' : Reading} {part : Part} {outer : List Part} {text : String}
    (hs : (inside part outer).Proper) (hl : (Token.word text).Legible (inside part outer).isOpened)
    (h : (inside part outer).next? (.word text) = some s') :
    s'.Proper ∧ s'.isOpened = false ∧ s'.tokens = (inside part outer).tokens ++ [.word text] := by
  cases part with
  | opened =>
    cases h
    have hp : (Part.labelled text).Proper := ⟨hl.1, hl.2 rfl⟩
    obtain ⟨hproper, ht⟩ := inside_grows hs hp rfl
    exact ⟨hproper, rfl, ht⟩
  | labelled label =>
    cases h
    have hlabel : IsLabel label := (List.forall_mem_cons.mp hs).1
    have hp : (Part.complete (leaf label text)).Proper := .leaf hlabel hl.1
    obtain ⟨hproper, ht⟩ := inside_grows hs hp rfl
    exact ⟨hproper, rfl, ht⟩
  | complete b => cases h
  | plain label children => cases h
  | derivation category head arity children => cases h

/-- Each token is added to those read before. -/
theorem next_grows {s s' : Reading} (hs : s.Proper) {tok : Token} (hl : tok.Legible s.isOpened)
    (h : s.next? tok = some s') :
    s'.Proper ∧ s'.isOpened = tok.opens ∧ s'.tokens = s.tokens ++ [tok] := by
  cases s with
  | finished b => cases h
  | start =>
    cases tok <;> cases h
    exact ⟨List.forall_mem_cons.mpr ⟨trivial, fun p hp => absurd hp List.not_mem_nil⟩, rfl, rfl⟩
  | inside part outer =>
    -- A header can only be read, and is only legible, directly after an opening bracket.
    have hopened (ho : (inside part outer).isOpened = true) : part = .opened := by
      cases part <;> first | rfl | cases ho
    cases tok with
    | openBracket =>
      cases h
      refine ⟨List.forall_mem_cons.mpr ⟨trivial, hs⟩, rfl, ?_⟩
      rw [tokens_inside]
      rfl
    | closeBracket => exact close_grows hs h
    | word text => exact word_grows hs hl h
    | lexical category pos formerPos form predicate =>
      obtain ⟨ho, hf⟩ := hl
      obtain rfl := hopened ho
      cases h
      simp only [List.forall_mem_cons, Option.mem_toList] at hf
      obtain ⟨hcat, hpos, hformer, hform, hpred⟩ := hf
      have hp : (Part.complete (lexical category pos formerPos form predicate)).Proper :=
        .lexical hcat hpos hformer hform hpred
      obtain ⟨hproper, ht⟩ := inside_grows hs hp rfl
      exact ⟨hproper, rfl, ht⟩
    | derived category head arity =>
      obtain ⟨ho, hcat, hh, ha⟩ := hl
      obtain rfl := hopened ho
      cases h
      have hp : (Part.derivation category head arity []).Proper :=
        ⟨hcat, hh, ha, fun b hb => absurd hb List.not_mem_nil⟩
      obtain ⟨hproper, ht⟩ := inside_grows hs hp rfl
      exact ⟨hproper, rfl, ht⟩

/-- A reading is a proper part of a bracket however far it got, and tells all the tokens it has
read. -/
theorem run_grows {ts : List Token} {s s' : Reading} (hs : s.Proper) (hchain : Chain s.isOpened ts)
    (h : ts.foldlM next? s = some s') : s'.Proper ∧ s'.tokens = s.tokens ++ ts := by
  induction ts generalizing s with
  | nil =>
    cases h
    exact ⟨hs, (List.append_nil _).symm⟩
  | cons tok ts ih =>
    rw [List.foldlM_cons] at h
    obtain ⟨mid, hmid, h⟩ := Option.bind_eq_some_iff.mp h
    obtain ⟨hm, hopens, ht⟩ := next_grows hs hchain.1 hmid
    obtain ⟨hproper, ht'⟩ := ih hm (by rw [hopens]; exact hchain.2) h
    refine ⟨hproper, ?_⟩
    rw [ht', ht, List.append_assoc]
    rfl

end Reading

theorem proper_of_tokens? {ts : List Token} (hchain : Chain false ts) {b : Bracket}
    (h : ofTokens? ts = some b) : b.Proper ∧ b.tokens = ts := by
  obtain ⟨s, hrun, hfin⟩ := Option.bind_eq_some_iff.mp h
  obtain ⟨hs, ht⟩ := Reading.run_grows (s := .start) trivial hchain hrun
  cases s with
  | finished b =>
    cases hfin
    exact ⟨hs, ht⟩
  | start => cases hfin
  | inside part outer => cases hfin

namespace Reading

variable {bs : List Bracket}

/-- Children are taken one after the other by a part that has a place for them. -/
theorem run_children {P : List Bracket → Part}
    (hP : ∀ b done, (P done).child? b = some (P (b :: done)))
    (hbs : ∀ b ∈ bs, ∀ s : Reading, b.tokens.foldlM next? s = s.take? b) (done : List Bracket)
    (outer : List Part) :
    (tokensAll bs).foldlM next? (inside (P done) outer) =
      some (inside (P (bs.reverse ++ done)) outer) := by
  induction bs generalizing done with
  | nil => rfl
  | cons b bs ih =>
    obtain ⟨hb, hrest⟩ := List.forall_mem_cons.mp hbs
    rw [tokensAll_cons, List.foldlM_append, hb, take?, hP]
    refine (ih hrest (b :: done)).trans ?_
    simp

/-- Once the first child is taken as well. -/
theorem run_first_child {P : List Bracket → Part}
    (hP : ∀ b done, (P done).child? b = some (P (b :: done))) {part : Part}
    (hpart : ∀ b, part.child? b = some (P [b])) (hne : bs ≠ [])
    (hbs : ∀ b ∈ bs, ∀ s : Reading, b.tokens.foldlM next? s = s.take? b) (outer : List Part) :
    (tokensAll bs).foldlM next? (inside part outer) = some (inside (P bs.reverse) outer) := by
  cases bs with
  | nil => exact absurd rfl hne
  | cons b bs =>
    obtain ⟨hb, hrest⟩ := List.forall_mem_cons.mp hbs
    rw [tokensAll_cons, List.foldlM_append, hb, take?, hpart]
    refine (run_children hP hrest [b] outer).trans ?_
    simp

/-- What stands inside a bracket makes a part that can be closed. -/
theorem run_tokens {b : Bracket}
    (h : ∀ outer, ∃ part : Part, part.close? = some b ∧
      b.inner.foldlM next? (inside .opened outer) = some (inside part outer)) (s : Reading) :
    b.tokens.foldlM next? s = s.take? b := by
  rw [Bracket.tokens, List.cons_append, List.foldlM_cons, next?_open]
  cases hs : s.stack? with
  | none =>
    cases s with
    | finished c => rfl
    | start => cases hs
    | inside part outer => cases hs
  | some outer =>
    obtain ⟨part, hclose, hrun⟩ := h outer
    change (b.inner ++ [Token.closeBracket]).foldlM next? (inside .opened outer) = _
    rw [List.foldlM_append, hrun]
    change [Token.closeBracket].foldlM next? (inside part outer) = _
    rw [List.foldlM_cons, next?_close hs hclose]
    cases s.take? b <;> rfl

/-- A proper bracket is read as a whole. -/
theorem run_bracket {b : Bracket} (h : b.Proper) (s : Reading) :
    b.tokens.foldlM next? s = s.take? b := by
  induction h generalizing s with
  | leaf => exact run_tokens (fun outer => ⟨.complete _, rfl, rfl⟩) s
  | lexical => exact run_tokens (fun outer => ⟨.complete _, rfl, rfl⟩) s
  | @phrase label children _ hne _ ih =>
    refine run_tokens (fun outer => ⟨.plain label children.reverse, ?_, ?_⟩) s
    · rw [Part.close?, List.reverse_reverse]
    · cases label with
      | none =>
        have hpart : ∀ b, Part.opened.child? b = some (.plain none [b]) := fun _ => rfl
        exact run_first_child (fun _ _ => rfl) hpart hne ih outer
      | some label =>
        have hpart : ∀ b, (Part.labelled label).child? b = some (.plain (some label) [b]) :=
          fun _ => rfl
        exact run_first_child (fun _ _ => rfl) hpart hne ih outer
  | @derived category head arity children _ _ _ hne _ ih =>
    refine run_tokens (fun outer => ⟨.derivation category head arity children.reverse, ?_, ?_⟩) s
    · cases hr : children.reverse with
      | nil => exact absurd (List.reverse_eq_nil_iff.mp hr) hne
      | cons c cs => simp [Part.close?, ← hr]
    · have hrun := run_children (P := .derivation category head arity) (fun _ _ => rfl) ih [] outer
      rw [List.append_nil] at hrun
      exact hrun

end Reading

theorem chain_tokensAll {bs : List Bracket} {ts : List Token}
    (hbs : ∀ b ∈ bs, ∀ us, Chain false us → ∀ opened, Chain opened (b.tokens ++ us))
    (h : ∀ opened, Chain opened ts) (opened : Bool) : Chain opened (tokensAll bs ++ ts) := by
  induction bs generalizing opened with
  | nil => exact h opened
  | cons b bs ih =>
    obtain ⟨hb, hrest⟩ := List.forall_mem_cons.mp hbs
    rw [tokensAll_cons, List.append_assoc]
    exact hb _ (ih hrest false) opened

/-- A proper bracket can be written in front of whatever can follow. -/
theorem Proper.chain {b : Bracket} (h : b.Proper) {ts : List Token} (hts : Chain false ts)
    (opened : Bool) : Chain opened (b.tokens ++ ts) := by
  have hclose {ts : List Token} (hts : Chain false ts) (opened : Bool) :
      Chain opened (.closeBracket :: ts) := ⟨trivial, hts⟩
  induction h generalizing ts opened with
  | leaf hlabel hword =>
    exact ⟨trivial, ⟨hlabel.1, fun _ => hlabel.2⟩, ⟨hword, fun ho => (by cases ho)⟩, trivial, hts⟩
  | @phrase label children hlabel _ _ ih =>
    have hall := chain_tokensAll (fun b hb us hus => ih b hb hus) (hclose hts)
    rw [tokens_append, inner, List.append_assoc]
    refine ⟨trivial, ?_⟩
    cases label with
    | none => exact hall true
    | some label =>
      obtain ⟨hword, hfirst⟩ := hlabel label rfl
      exact ⟨⟨hword, fun _ => hfirst⟩, hall false⟩
  | lexical hcat hpos hformer hform hpred =>
    refine ⟨trivial, ⟨rfl, ?_⟩, trivial, hts⟩
    simp only [List.forall_mem_cons, Option.mem_toList]
    exact ⟨hcat, hpos, hformer, hform, hpred⟩
  | @derived category head arity children hcat hh ha _ _ ih =>
    have hall := chain_tokensAll (fun b hb us hus => ih b hb hus) (hclose hts)
    rw [tokens_append, inner]
    exact ⟨trivial, ⟨rfl, hcat, hh, ha⟩, hall false⟩

theorem Proper.chain_tokens {b : Bracket} (h : b.Proper) : Chain false b.tokens := by
  have hend : Chain false [] := trivial
  have hchain := h.chain hend false
  rwa [List.append_nil] at hchain

theorem Spelled.spaced_tokens {b : Bracket} {cs : List Char} (h : b.Spelled cs) :
    Spaced (spelling b.tokens) cs := by
  rw [spelling_tokens]
  exact h.2

theorem Spelled.cut?_eq {b : Bracket} {cs : List Char} (h : b.Spelled cs) :
    Token.cut? false cs = some b.tokens :=
  Token.cut?_eq_some.mpr ⟨h.1.chain_tokens, h.spaced_tokens⟩

/-- The reader takes exactly the spellings of a bracket. -/
theorem ofText?_eq_some {cs : List Char} {b : Bracket} :
    ofText? cs = some b ↔ b.Spelled cs := by
  constructor
  · intro h
    obtain ⟨ts, hcut, h⟩ := Option.bind_eq_some_iff.mp h
    obtain ⟨hchain, hspaced⟩ := Token.cut?_eq_some.mp hcut
    obtain ⟨hb, rfl⟩ := proper_of_tokens? hchain h
    refine ⟨hb, ?_⟩
    rwa [← spelling_tokens]
  · intro h
    rw [ofText?, h.cut?_eq, Option.bind_some, ofTokens?, Reading.run_bracket h.1]
    rfl

theorem Spelled.unique {b b' : Bracket} {cs : List Char} (h : b.Spelled cs)
    (h' : b'.Spelled cs) : b = b' := by
  have hread := ofText?_eq_some.mpr h
  rw [ofText?_eq_some.mpr h'] at hread
  exact (Option.some.inj hread).symm

end TreeQuery.Bracket
