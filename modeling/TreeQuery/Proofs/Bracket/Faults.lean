import TreeQuery.Proofs.Bracket.Parsing
import TreeQuery.Proofs.Category.Spelling
import TreeQuery.Proofs.Outcomes
import TreeQuery.Proofs.Text.Numeral

namespace TreeQuery.Bracket

open Token (spelling Chain)

namespace Token

deriving instance DecidableEq for Token

/-- What is wrong with a header. The head's number is looked at before the category. -/
inductive Faulty : Token → Fault → Prop
  | headIndex {category head arity} : 2 ^ 64 ≤ Numeral.value head.toList →
      Faulty (derived category head arity) (.headIndex head)
  | derived {category head arity} : Numeral.value head.toList < 2 ^ 64 →
      (∀ c, ¬Category.Tight .chain c category.toList) →
      Faulty (derived category head arity) (.notACategory category)
  | lexical {category pos formerPos word predicate} :
      (∀ c, ¬Category.Tight .chain c category.toList) →
      Faulty (lexical category pos formerPos word predicate) (.notACategory category)

/-- The first complaint about a header. -/
def fault? : Token → Option Fault
  | derived category head _ => (error? (headIndex? head)).or (error? (category? category))
  | lexical category _ _ _ _ => error? (category? category)
  | _ => none

theorem error?_category? {text : String} {f : Fault} :
    error? (category? text) = some f ↔
      (∀ c, ¬Category.Tight .chain c text.toList) ∧ f = .notACategory text := by
  have hread : (∀ c, ¬Category.Tight .chain c text.toList) ↔
      Category.ofText? text.toList = none := by
    rw [Option.eq_none_iff_forall_ne_some]
    apply forall_congr'
    intro c
    rw [Ne, Category.ofText?_eq_some]
  rw [hread, category?, error?_mapError, Category.parse]
  cases Category.ofText? text.toList with
  | none => simp [eq_comm]
  | some c => simp

theorem error?_headIndex? {text : String} (h : Numeral.isNumeral text.toList = true) {f : Fault} :
    error? (headIndex? text) = some f ↔
      2 ^ 64 ≤ Numeral.value text.toList ∧ f = .headIndex text := by
  have hread : 2 ^ 64 ≤ Numeral.value text.toList ↔ Numeral.read? text.toList = none := by
    rw [Numeral.read?, if_pos h, Numeral.ofDigitChars_eq_value]
    simp [UInt64.size]
  rw [hread, headIndex?]
  cases Numeral.read? text.toList with
  | none => simp [eq_comm]
  | some n => simp

theorem fault?_eq_some {opened : Bool} {tok : Token} (h : tok.Legible opened) {f : Fault} :
    tok.fault? = some f ↔ tok.Faulty f := by
  cases tok with
  | openBracket => exact ⟨fun h => (by cases h), fun h => (by cases h)⟩
  | closeBracket => exact ⟨fun h => (by cases h), fun h => (by cases h)⟩
  | word text => exact ⟨fun h => (by cases h), fun h => (by cases h)⟩
  | lexical category pos formerPos word predicate =>
    rw [fault?, error?_category?]
    constructor
    · intro ⟨hno, hf⟩
      subst f
      exact .lexical hno
    · intro hf
      cases hf with
      | lexical hno => exact ⟨hno, rfl⟩
  | derived category head arity =>
    have hhead := error?_headIndex? h.2.2.1 (f := f)
    rw [fault?, Option.or_eq_some_iff, hhead, error?_category?]
    constructor
    · intro hf
      rcases hf with ⟨hbig, hf⟩ | ⟨hfits, hno, hf⟩
      · subst f
        exact .headIndex hbig
      · subst f
        refine .derived (Nat.lt_of_not_le fun hbig => ?_) hno
        rw [(error?_headIndex? h.2.2.1).mpr ⟨hbig, rfl⟩] at hfits
        cases hfits
    · intro hf
      cases hf with
      | headIndex hbig => exact .inl ⟨hbig, rfl⟩
      | derived hlt hno =>
        refine .inr ⟨Option.eq_none_iff_forall_ne_some.mpr fun g hg => ?_, hno, rfl⟩
        have hbig := ((error?_headIndex? h.2.2.1).mp hg).1
        omega

theorem Chain.legible {opened : Bool} {ts : List Token} (h : Chain opened ts) :
    ∀ tok ∈ ts, ∃ opened, tok.Legible opened := by
  induction ts generalizing opened with
  | nil => intro tok ht; cases ht
  | cons t ts ih =>
    intro tok ht
    rcases List.mem_cons.mp ht with he | ht
    · subst tok
      exact ⟨opened, h.1⟩
    · exact ih h.2 tok ht

end Token

mutual

/-- A bracket fails with the first complaint about its tokens. -/
theorem error?_constituent : ∀ b : Bracket, error? b.constituent = b.tokens.findSome? Token.fault?
  | leaf label word => rfl
  | phrase label children => by
    have hlabel : (label.toList.map Token.word).findSome? Token.fault? = none := by
      cases label <;> rfl
    have hclose : [Token.closeBracket].findSome? Token.fault? = none := rfl
    rw [constituent, error?_bind (r := none) fun _ => rfl, error?_constituents children, tokens,
      inner, List.cons_append, List.findSome?_cons, List.findSome?_append, List.findSome?_append,
      hlabel, hclose]
    rfl
  | lexical category pos formerPos word predicate => by
    rw [constituent, error?_bind (r := none) fun _ => rfl, tokens, inner]
    simp only [List.cons_append, List.nil_append, List.findSome?_cons, Token.fault?]
    cases error? (category? category) <;> rfl
  | derived category head arity children => by
    have hclose : [Token.closeBracket].findSome? Token.fault? = none := rfl
    have hrest (h : UInt64) : error? (do
        let c ← category? category
        let children ← constituents children
        return Constituent.node ⟨category, none, none, some c, some h⟩ children) =
        (error? (category? category)).or ((tokensAll children).findSome? Token.fault?) := by
      rw [error?_bind fun _ => error?_bind (r := none) fun _ => rfl, error?_constituents children,
        Option.or_none]
    rw [constituent, error?_bind hrest, tokens, inner, List.cons_append, List.findSome?_cons,
      List.cons_append, List.findSome?_cons, List.findSome?_append, hclose, Option.or_none]
    simp only [Token.fault?]
    cases error? (headIndex? head) with
    | some f => rfl
    | none => cases error? (category? category) <;> rfl

theorem error?_constituents : ∀ bs : List Bracket,
    error? (constituents bs) = (tokensAll bs).findSome? Token.fault?
  | [] => rfl
  | b :: bs => by
    rw [constituents, error?_bind fun _ => error?_bind (r := none) fun _ => rfl,
      error?_constituent b, error?_constituents bs, tokensAll_cons, List.findSome?_append,
      Option.or_none]

end

variable {cs : List Char} {b : Bracket}

theorem ofChars_of_not_spelled (h : ∀ b : Bracket, ¬b.Spelled cs) :
    Tree.ofChars cs = .error .notBracketed := by
  have hnone : ofText? cs = none :=
    Option.eq_none_iff_forall_ne_some.mpr fun b hb => h b (ofText?_eq_some.mp hb)
  rw [Tree.ofChars, hnone]

theorem Spelled.error?_ofChars (h : b.Spelled cs) :
    error? (Tree.ofChars cs) = b.tokens.findSome? Token.fault? := by
  rw [Tree.ofChars, ofText?_eq_some.mpr h]
  exact (error?_map _ _).trans (error?_constituent b)

theorem Spelled.fault?_iff (h : b.Spelled cs) {tok : Token} (ht : tok ∈ b.tokens) {f : Fault} :
    tok.fault? = some f ↔ tok.Faulty f := by
  obtain ⟨opened, hl⟩ := h.1.chain_tokens.legible tok ht
  exact Token.fault?_eq_some hl

/-- The error of a bracket's text is that of the first header with one. -/
theorem Spelled.ofChars_eq_error (h : b.Spelled cs) {f : Fault} :
    Tree.ofChars cs = .error f ↔ ∃ before tok after, b.tokens = before ++ tok :: after ∧
      (∀ t ∈ before, ∀ g, ¬t.Faulty g) ∧ tok.Faulty f := by
  rw [← error?_eq_some, h.error?_ofChars]
  exact findSome?_eq_some_first fun tok ht f => h.fault?_iff ht

/-- A bracket's text has an error exactly if one of its headers has. -/
theorem Spelled.fails_iff (h : b.Spelled cs) :
    (∃ f, Tree.ofChars cs = .error f) ↔ ∃ tok ∈ b.tokens, ∃ f, tok.Faulty f := by
  simp only [← error?_eq_some, h.error?_ofChars]
  exact findSome?_fails_iff fun tok ht f => h.fault?_iff ht

theorem Token.Faulty.kind {tok : Token} {f : Fault} (h : tok.Faulty f) :
    (∃ text, f = .notACategory text) ∨ ∃ text, f = .headIndex text := by
  cases h with
  | headIndex => exact .inr ⟨_, rfl⟩
  | derived => exact .inl ⟨_, rfl⟩
  | lexical => exact .inl ⟨_, rfl⟩

/-- Whatever is told about a text, it is told about a header's field or the text is no bracket. -/
theorem fault_kind {f : Fault} (h : Tree.ofChars cs = .error f) :
    ((∀ b : Bracket, ¬b.Spelled cs) ∧ f = .notBracketed) ∨
      (∃ b : Bracket, b.Spelled cs) ∧
        ((∃ text, f = .notACategory text) ∨ ∃ text, f = .headIndex text) := by
  by_cases hb : ∃ b : Bracket, b.Spelled cs
  · obtain ⟨b, hb⟩ := hb
    obtain ⟨_, _, _, _, _, hf⟩ := hb.ofChars_eq_error.mp h
    exact .inr ⟨⟨b, hb⟩, hf.kind⟩
  · have hno : ∀ b : Bracket, ¬b.Spelled cs := not_exists.mp hb
    rw [ofChars_of_not_spelled hno] at h
    cases h
    exact .inl ⟨hno, rfl⟩

theorem parseAt_eq_error {line : Nat} {e : ReadError} :
    Tree.parseAt line cs = .error e ↔ ∃ f, Tree.ofChars cs = .error f ∧ e = .inLine line f := by
  simp only [← error?_eq_some, Tree.parseAt, error?_mapError, Option.map_eq_some_iff,
    eq_comm (a := e)]

theorem exists_parseTree_iff :
    (∃ t, IsParseTree cs t) ↔ ∃ b : Bracket, b.Spelled cs := by
  constructor
  · intro ⟨t, ht⟩
    obtain ⟨b, hb, _⟩ := ht.exists_spelled
    exact ⟨b, hb⟩
  · intro ⟨b, hb⟩
    exact hb.exists_parseTree

theorem IsParseTree.toTree_eq {t : BracketTree} (h : IsParseTree cs t) :
    t.toTree = Tree.ofChars cs := by
  obtain ⟨b, hb, ht⟩ := h.exists_spelled
  rw [ht, Tree.ofChars, ofText?_eq_some.mpr hb]

/-- What `parseAt` tells about a text. The tokens of a bracket stand in the text in their order. The
same is told of the text's parse tree, so that none lacks a part or has a wrong one. -/
theorem parseAt_errors (line : Nat) (cs : List Char) :
    (Tree.parseAt line cs = .error (.inLine line .notBracketed) ↔ ∀ b : Bracket, ¬b.Spelled cs) ∧
      (∀ b : Bracket, b.Spelled cs → Spaced (spelling b.tokens) cs ∧
        ((∃ e, Tree.parseAt line cs = .error e) ↔ ∃ tok ∈ b.tokens, ∃ f, tok.Faulty f) ∧
        ∀ e, Tree.parseAt line cs = .error e ↔
          ∃ before tok after f, b.tokens = before ++ tok :: after ∧
            (∀ t ∈ before, ∀ g, ¬t.Faulty g) ∧ tok.Faulty f ∧ e = .inLine line f) ∧
      (∀ e, Tree.parseAt line cs = .error e → ∃ f, e = .inLine line f ∧
        (f = .notBracketed ∨ (∃ text, f = .notACategory text) ∨ ∃ text, f = .headIndex text)) ∧
      ((∃ t, IsParseTree cs t) ↔ ∃ b : Bracket, b.Spelled cs) ∧
      ∀ t, IsParseTree cs t → t.toTree.mapError (.inLine line) = Tree.parseAt line cs := by
  refine ⟨?_, ?_, ?_, exists_parseTree_iff, fun t ht => by rw [ht.toTree_eq, Tree.parseAt]⟩
  · rw [parseAt_eq_error]
    constructor
    · intro ⟨f, hf, he⟩
      cases he
      rcases fault_kind hf with ⟨hno, _⟩ | ⟨_, ⟨text, he⟩ | ⟨text, he⟩⟩
      · exact hno
      · cases he
      · cases he
    · intro hno
      exact ⟨_, ofChars_of_not_spelled hno, rfl⟩
  · intro b hb
    refine ⟨hb.spaced_tokens, ?_, ?_⟩
    · rw [← hb.fails_iff]
      simp only [parseAt_eq_error]
      constructor
      · intro ⟨e, f, hf, _⟩
        exact ⟨f, hf⟩
      · intro ⟨f, hf⟩
        exact ⟨_, f, hf, rfl⟩
    · intro e
      simp only [parseAt_eq_error, hb.ofChars_eq_error]
      constructor
      · intro ⟨f, ⟨before, tok, after, ht, hbefore, htok⟩, he⟩
        exact ⟨before, tok, after, f, ht, hbefore, htok, he⟩
      · intro ⟨before, tok, after, f, ht, hbefore, htok, he⟩
        exact ⟨f, ⟨before, tok, after, ht, hbefore, htok⟩, he⟩
  · intro e he
    obtain ⟨f, hf, he⟩ := parseAt_eq_error.mp he
    refine ⟨f, he, ?_⟩
    rcases fault_kind hf with ⟨_, hf⟩ | ⟨_, hf⟩
    · exact .inl hf
    · exact .inr hf

/-- A clause with a wrong header inside, which has another inside it. -/
def faultyClause : Bracket :=
  .phrase (some "S") [.lexical "N" "NN" "NN" "dogs" none,
    .derived "/" "18446744073709551616" "1" [.lexical "[" "VBD" "VBD" "ran" none]]

def faultyClauseText : String :=
  "(S (<L N NN NN dogs>) (<T / 18446744073709551616 1> (<L [ VBD VBD ran>)))"

/-- Of both faults in one header, and of those in the headers inside it, the head's is told. -/
theorem parseAt_errors_faultyClause :
    Tree.parseAt 3 faultyClauseText.toList =
      .error (.inLine 3 (.headIndex "18446744073709551616")) := by
  have hcut : Token.cut? false faultyClauseText.toList = some faultyClause.tokens := by
    decide +kernel
  have hspelled : faultyClause.Spelled faultyClauseText.toList := by
    rw [← ofText?_eq_some, ofText?, hcut]
    rfl
  have hnoun : Category.Tight .chain (.atom "N" []) "N".toList :=
    Category.ofText?_eq_some.mp (by decide +kernel)
  refine (((parseAt_errors 3 _).2.1 _ hspelled).2.2 _).mpr
    ⟨[.openBracket, .word "S", .openBracket, .lexical "N" "NN" "NN" "dogs" none, .closeBracket,
      .openBracket], .derived "/" "18446744073709551616" "1", _, _, rfl, ?_, .headIndex ?_, rfl⟩
  · intro t ht g hg
    cases hg with
    | headIndex => simp at ht
    | derived => simp at ht
    | lexical hno =>
      simp only [List.mem_cons, Token.lexical.injEq, reduceCtorEq, List.not_mem_nil, or_false,
        false_or] at ht
      obtain ⟨he, _⟩ := ht
      subst he
      exact hno _ hnoun
  · decide +kernel

end TreeQuery.Bracket
