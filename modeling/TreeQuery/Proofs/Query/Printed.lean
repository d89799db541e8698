import TreeQuery.Proofs.Query.RoundTrip

namespace TreeQuery

variable [RegexEngine]

open Query Text

/-- The anchor as it is written. -/
def Anchor.literal : Anchor → Literal
  | any => ⟨.any, none⟩
  | label text => ⟨.label (.text text), none⟩
  | labelMatching re => ⟨.label (.regex re.source re.anchored), none⟩
  | word text => ⟨.word (.text text), none⟩
  | wordMatching re => ⟨.word (.regex re.source re.anchored), none⟩
  | category text => ⟨.category (.text text), none⟩
  | categoryMatching re => ⟨.category (.regex re.source re.anchored), none⟩
  | sameAs var => ⟨.sameAs var, none⟩
  | differentFrom var => ⟨.differentFrom var, none⟩
  | capture anchor var => { anchor.literal with capture := some var }

/-- The star and the labels that need no quotes. -/
def Anchor.IsPlain : Anchor → Prop
  | any => True
  | label text => isBare text.toList = true
  | _ => False

instance : DecidablePred Anchor.IsPlain
  | .any => .isTrue trivial
  | .label text => inferInstanceAs (Decidable (isBare text.toList = true))
  | .labelMatching _ | .word _ | .wordMatching _ | .category _ | .categoryMatching _
  | .sameAs _ | .differentFrom _ | .capture _ _ => .isFalse id

theorem Anchor.IsPlain.print [Unicode.Tables] {a : Anchor}
    (h : a.IsPlain) : a.print = a.literal.spell := by
  cases a with
  | any => rfl
  | label text => exact (List.append_nil _).symm
  | _ => cases h

namespace Pattern

def inBraceTokens (capture : Option String) (ts : List Token) : List Token :=
  .openBrace :: ts ++ [.closeBrace capture]

/-- What stands in the braces of a pattern that is captured: a group needs no more of them. -/
def inner : Pattern → Pattern
  | group p => p
  | p => p

mutual

/-- The tokens that the pattern is printed as. -/
def tokens : Pattern → List Token
  | node a cs => .anchor a.literal :: tokensAll cs
  | related op p =>
    .operator op.symbol :: (if p.isItem then p.tokens else inBraceTokens none p.tokens)
  | not p => .not :: p.tokens
  | or p q => p.tokens ++ .bar :: q.tokens
  | group p => inBraceTokens none p.tokens
  | all cs => .openBracket :: tokensAll cs ++ [.closeBracket]
  | optional p => .optional :: p.tokens
  | capture (group p) var => inBraceTokens (some var) p.tokens
  | capture p var => inBraceTokens (some var) p.tokens

def tokensAll : List Pattern → List Token
  | [] => []
  | c :: cs => c.tokens ++ tokensAll cs

end

theorem tokens_capture (p : Pattern) (var : String) :
    (capture p var).tokens = inBraceTokens (some var) p.inner.tokens := by
  cases p <;> rfl

theorem print_capture [Unicode.Tables] (p : Pattern) (var : String) :
    (capture p var).print = inBraces p.inner.print ++ '=' :: var.toList := by
  cases p <;> rfl

def isOr : Pattern → Bool
  | or _ _ => true
  | _ => false

/-- A node with constraints of its own. -/
def isConstrained : Pattern → Bool
  | node _ (_ :: _) => true
  | _ => false

/-- A pattern of plain anchors whose bars join what they join in its text: neither a negation nor an
option is of alternatives, and no alternatives begin with a node that has constraints. -/
inductive Tidy : Pattern → Prop
  | node {a cs} : a.IsPlain → (∀ c ∈ cs, Tidy c) → Tidy (.node a cs)
  | related (op) {p} : Tidy p → Tidy (.related op p)
  | not {p} : p.isOr = false → Tidy p → Tidy (.not p)
  | or {p q} : p.isConstrained = false → Tidy p → Tidy q → Tidy (.or p q)
  | group {p} : Tidy p → Tidy (.group p)
  | all {cs} : (∀ c ∈ cs, Tidy c) → Tidy (.all cs)
  | optional {p} : p.isOr = false → Tidy p → Tidy (.optional p)
  | capture {p var} : IsVar var → Tidy p.inner → Tidy (.capture p var)

theorem printAll_eq [Unicode.Tables] {cs : List Pattern}
    (h : ∀ c ∈ cs, ' ' :: c.print = spaced c.tokens) : printAll cs = spaced (tokensAll cs) := by
  induction cs with
  | nil => rfl
  | cons c cs ih =>
    obtain ⟨hc, hcs⟩ := List.forall_mem_cons.mp h
    rw [printAll, tokensAll, spaced_append, ← hc, ih hcs]

theorem spaced_inBraceTokens [Unicode.Tables] (capture : Option String) {p : Pattern}
    (h : ' ' :: p.print = spaced p.tokens) :
    spaced (inBraceTokens capture p.tokens) =
      ' ' :: inBraces p.print ++ spellCapture capture := by
  rw [inBraceTokens, spaced_append, spaced_cons, ← h]
  simp [inBraces, spaced, Token.spell]

/-- The text of a pattern is its tokens with spaces between them. -/
theorem Tidy.print [Unicode.Tables] {p : Pattern}
    (h : p.Tidy) : ' ' :: p.print = spaced p.tokens := by
  induction h with
  | node ha _ ih =>
    rw [Pattern.print, printAll_eq ih, ha.print]
    rfl
  | @related op p _ ih =>
    rw [Pattern.print, tokens, spaced_cons]
    split
    · rw [← ih]
      rfl
    · rw [spaced_inBraceTokens none ih]
      simp [Token.spell, spellCapture]
  | not _ _ ih | optional _ _ ih =>
    rw [Pattern.print, tokens, spaced_cons, ← ih]
    rfl
  | or _ _ _ ihp ihq =>
    rw [Pattern.print, tokens, spaced_append, spaced_cons, ← ihp, ← ihq]
    simp [Token.spell]
  | group _ ih =>
    rw [Pattern.print, tokens, spaced_inBraceTokens none ih]
    exact (List.append_nil _).symm
  | all _ ih =>
    rw [Pattern.print, printAll_eq ih, tokens, spaced_append, spaced_cons]
    simp [spaced, Token.spell]
  | capture _ _ ih =>
    rw [print_capture, tokens_capture, spaced_inBraceTokens _ ih]
    rfl

end Pattern

namespace Query

/-- A token of a printed pattern. -/
def Token.Printed : Token → Prop
  | anchor a => ∃ b : Anchor, b.IsPlain ∧ a = b.literal
  | operator symbol => ∃ op : Operator, symbol = op.symbol
  | closeBrace capture => ∀ v ∈ capture, IsVar v
  | _ => True

/-- An operator that exists, or another kind of token. -/
def Token.Known : Token → Prop
  | operator symbol => ∃ op, Operator.parse symbol = .ok op
  | _ => True

end Query

namespace Pattern

theorem printed_inBraceTokens {capture : Option String} (hv : ∀ v ∈ capture, IsVar v)
    {ts : List Token} (h : ∀ tok ∈ ts, tok.Printed) :
    ∀ tok ∈ inBraceTokens capture ts, tok.Printed :=
  List.forall_mem_append.mpr ⟨List.forall_mem_cons.mpr ⟨trivial, h⟩,
    List.forall_mem_singleton.mpr hv⟩

theorem printed_tokensAll {cs : List Pattern} (h : ∀ c ∈ cs, ∀ tok ∈ c.tokens, tok.Printed) :
    ∀ tok ∈ tokensAll cs, tok.Printed := by
  induction cs with
  | nil => exact fun tok hm => absurd hm List.not_mem_nil
  | cons c cs ih =>
    obtain ⟨hc, hcs⟩ := List.forall_mem_cons.mp h
    exact List.forall_mem_append.mpr ⟨hc, ih hcs⟩

theorem Tidy.printed {p : Pattern} (h : p.Tidy) : ∀ tok ∈ p.tokens, tok.Printed := by
  induction h with
  | node ha _ ih => exact List.forall_mem_cons.mpr ⟨⟨_, ha, rfl⟩, printed_tokensAll ih⟩
  | related op _ ih =>
    refine List.forall_mem_cons.mpr ⟨⟨op, rfl⟩, ?_⟩
    split
    · exact ih
    · exact printed_inBraceTokens (fun _ hv => by cases hv) ih
  | not _ _ ih | optional _ _ ih => exact List.forall_mem_cons.mpr ⟨trivial, ih⟩
  | or _ _ _ ihp ihq =>
    exact List.forall_mem_append.mpr ⟨ihp, List.forall_mem_cons.mpr ⟨trivial, ihq⟩⟩
  | group _ ih => exact printed_inBraceTokens (fun _ hv => by cases hv) ih
  | all _ ih =>
    exact List.forall_mem_append.mpr ⟨List.forall_mem_cons.mpr ⟨trivial, printed_tokensAll ih⟩,
      List.forall_mem_singleton.mpr trivial⟩
  | capture hv _ ih =>
    rw [tokens_capture]
    refine printed_inBraceTokens (fun v hm => ?_) ih
    cases hm
    exact hv

end Pattern

namespace Query

open Token

omit [RegexEngine] in
/-- A symbol that begins with a digit denotes no operator. -/
theorem not_known_of_digit {symbol : String} {d : Char} {ds : List Char}
    (he : symbol.toList = d :: ds) (hd : d.isDigit = true) :
    ¬ (Token.operator symbol).Known := by
  have hleads : ∀ c ∈ Operator.leads, c.isDigit = false := by simp [Operator.leads]
  intro hknown
  obtain ⟨op, hparse⟩ := hknown
  obtain ⟨c, hc, hhead⟩ := (Operator.parse_eq_ok.mp hparse).lead
  rw [he, List.head?_cons] at hhead
  cases hhead
  rw [hleads d hc] at hd
  cases hd

variable {rest : List Char}

omit [RegexEngine] in
theorem node?_eq_none {c : Char} (hm : isMarker c = false) (hq : c ≠ '"')
    (hb : isBareStart c = false) (cs : List Char) : node? (c :: cs) = none := by
  have hbare : bare? (c :: cs) = none := by
    rw [bare?, if_neg (by simp [hb])]
  rw [node?]
  · rw [anchor?, base?_of_unmarked hm, quoted?_eq_none hq, hbare]
    rfl
  · rintro _ he
    cases he
    cases hm

/-- Where a node is called for, there is none if something else was printed. -/
theorem node?_eq_none_of_printed [Unicode.Tables] {tok : Token} (h : tok.Printed)
    (ha : ∀ a, tok ≠ .anchor a) (hb : tok ≠ .openBrace) : node? (tok.spell ++ rest) = none := by
  cases tok with
  | anchor a => exact absurd rfl (ha a)
  | openBrace => exact absurd rfl hb
  | operator symbol =>
    obtain ⟨op, rfl⟩ := h
    obtain ⟨c, hc, hhead⟩ := op.symbol_lead
    obtain ⟨cs, he⟩ := List.head?_eq_some_iff.mp hhead
    have hleads : ∀ c ∈ Operator.leads,
        isMarker c = false ∧ c ≠ '"' ∧ isBareStart c = false :=
      List.forall_iff_forall_mem.mp (by decide)
    obtain ⟨hm, hq, hs⟩ := hleads c hc
    rw [Token.spell, he, List.cons_append]
    exact node?_eq_none hm hq hs _
  | _ => exact node?_eq_none (by decide) (by decide) (by decide) _

theorem anchor?_plain [Unicode.Tables] {a : Anchor} (ha : a.IsPlain)
    (h : ∀ c ∈ rest.head?, c = ' ') :
    anchor? (a.literal.spell ++ rest) = some (.anchor a.literal, rest) := by
  cases a with
  | any => exact anchor?_of_base (fun _ _ => rfl) nofun h
  | label text =>
    refine anchor?_of_base (fun after hends => ?_) nofun h
    change base? ((Value.text text).spell true ++ after) = _
    rw [Value.spell_bare ha]
    exact label?_bare ha hends
  | _ => cases ha

/-- A plain anchor is a star, or it begins like a label. -/
theorem head_of_plain [Unicode.Tables] {a : Anchor} (ha : a.IsPlain) :
    ∃ c cs, a.literal.spell = c :: cs ∧ (c = '*' ∨ isBareStart c = true) := by
  cases a with
  | any => exact ⟨'*', [], rfl, .inl rfl⟩
  | label text =>
    obtain ⟨c, cs, he, hc, _⟩ := isBareStart_of_isBare ha
    refine ⟨c, cs, ?_, .inr hc⟩
    change (Value.text text).spell true ++ [] = _
    rw [Value.spell_bare ha, List.append_nil, he]
  | _ => cases ha

omit [RegexEngine] in
theorem not_structural_of_head {c : Char} (h : c = '*' ∨ isBareStart c = true) :
    isBlank c = false ∧ c ∉ ['=', '!', '?', '|', '[', ']', '{', '}'] := by
  rcases h with rfl | h
  · decide
  · constructor
    · simp only [isBareStart, isBareChar, Bool.and_eq_true, Bool.not_eq_true'] at h
      exact h.1.2
    · intro hm
      have hchars : ∀ c ∈ ['=', '!', '?', '|', '[', ']', '{', '}'], isBareStart c = false :=
        List.forall_iff_forall_mem.mp (by decide)
      rw [hchars c hm] at h
      cases h

/-- Where a constraint is called for, a misplaced anchor is no token, or an operator that does not
exist. -/
theorem constraint?_plain [Unicode.Tables] {a : Anchor} (ha : a.IsPlain) {tok : Token}
    {after : List Char}
    (h : constraint? (a.literal.spell ++ rest) = some (tok, after)) : ¬ tok.Known := by
  obtain ⟨c, cs, he, hc⟩ := head_of_plain ha
  obtain ⟨_, hm⟩ := not_structural_of_head hc
  have hread : constraint? (c :: (cs ++ rest)) =
      if isOperatorChar c then
        some (.operator (String.ofList (c :: (cs ++ rest).takeWhile isOperatorChar)),
          (cs ++ rest).dropWhile isOperatorChar)
      else none := by
    rw [constraint?]
    all_goals
      rintro rfl
      exact hm (by decide)
  rw [he, List.cons_append, hread] at h
  split at h
  · rename_i hop
    cases h
    refine not_known_of_digit String.toList_ofList ?_
    have hsigns : ∀ c ∈ ['<', '>', '.', '$', '&', '#', '%'], c ≠ '*' ∧ isBareStart c = false :=
      List.forall_iff_forall_mem.mp (by decide)
    rw [isOperatorChar, Bool.or_eq_true, List.contains_iff_mem] at hop
    rcases hop with hd | hop
    · exact hd
    · obtain ⟨hstar, hstart⟩ := hsigns c hop
      rcases hc with hc | hc
      · exact absurd hc hstar
      · rw [hstart] at hc
        cases hc
  · cases h

theorem head_of_printed [Unicode.Tables] {tok : Token} (h : tok.Printed) :
    ∃ c cs, tok.spell = c :: cs ∧ isBlank c = false ∧ c ≠ '=' := by
  cases tok with
  | anchor a =>
    obtain ⟨b, hb, rfl⟩ := h
    obtain ⟨c, cs, he, hc⟩ := head_of_plain hb
    obtain ⟨hblank, hm⟩ := not_structural_of_head hc
    exact ⟨c, cs, he, hblank, fun hx => hm (hx ▸ List.mem_cons_self)⟩
  | operator symbol =>
    obtain ⟨op, rfl⟩ := h
    obtain ⟨c, cs, he, hb, hne⟩ := head_of_spell (operator_legible op)
    exact ⟨c, cs, he, hb, hne rfl⟩
  | closeBrace capture => exact ⟨'}', spellCapture capture, rfl, rfl, by decide⟩
  | _ => exact ⟨_, _, rfl, rfl, by decide⟩

theorem skipBlanks_printed [Unicode.Tables] {tok : Token} (h : tok.Printed) (ts : List Token) :
    skipBlanks (spaced (tok :: ts)) = tok.spell ++ spaced ts := by
  obtain ⟨c, cs, he, hc, _⟩ := head_of_printed h
  rw [spaced_cons, ← List.singleton_append, List.append_assoc]
  refine skipBlanks_append (by simp [isBlank]) fun x hx => ?_
  rw [he] at hx
  cases hx
  exact hc

theorem follows_printed [Unicode.Tables] (tok : Token) {ts : List Token}
    (h : ∀ next ∈ ts, next.Printed) : Follows tok (spaced ts) := by
  cases ts with
  | nil => exact ⟨fun c hc => absurd hc (by simp [spaced]), fun _ => rfl⟩
  | cons next ts =>
    have hnext : next.Printed := h next List.mem_cons_self
    refine ⟨fun c hc => by cases hc; rfl, fun _ => ?_⟩
    obtain ⟨c, cs, he, _, hne⟩ := head_of_printed hnext
    rw [skipBlanks_printed hnext, he, capture_of_head]
    intro x hx
    cases hx
    exact hne

theorem Token.Printed.legible [Unicode.Tables] {tok : Token} (h : tok.Printed)
    (ha : ∀ a, tok ≠ .anchor a) : tok.Legible false := by
  cases tok with
  | anchor a => exact absurd rfl (ha a)
  | operator symbol =>
    obtain ⟨op, rfl⟩ := h
    exact operator_legible op
  | openBrace => trivial
  | closeBrace capture => exact ⟨rfl, h⟩
  | _ => exact rfl

/-- A printed token is read as it was printed, unless it is taken for an operator that does not
exist. -/
theorem token?_printed [Unicode.Tables] {wanting : Bool} {tok tok' : Token} {after : List Char}
    (h : tok.Printed)
    (hf : Follows tok rest) (hread : token? wanting (tok.spell ++ rest) = some (tok', after))
    (hknown : tok'.Known) : tok' = tok ∧ after = rest := by
  have hsame (hr : token? wanting (tok.spell ++ rest) = some (tok, rest)) :
      tok' = tok ∧ after = rest := by
    rw [hr] at hread
    cases hread
    exact ⟨rfl, rfl⟩
  by_cases ha : ∀ a, tok ≠ .anchor a
  · cases wanting with
    | false => exact hsame (token?_append (h.legible ha) hf)
    | true =>
      by_cases hb : tok = .openBrace
      · subst hb
        exact hsame rfl
      · have hnone : token? true (tok.spell ++ rest) = none := node?_eq_none_of_printed h ha hb
        rw [hnone] at hread
        cases hread
  · obtain ⟨a, rfl⟩ : ∃ a, tok = .anchor a := by simpa using ha
    obtain ⟨b, hb, rfl⟩ := h
    cases wanting with
    | false => exact absurd hknown (constraint?_plain hb hread)
    | true =>
      refine hsame ?_
      obtain ⟨c, cs, he, hc⟩ := head_of_plain hb
      obtain ⟨_, hm⟩ := not_structural_of_head hc
      have hr := anchor?_plain hb hf.space
      change node? (b.literal.spell ++ rest) = _
      rw [he, List.cons_append] at hr ⊢
      rw [node?, hr]
      rintro _ hx
      cases hx
      exact hm (by decide)

omit [RegexEngine] in
/-- What is cut begins with a token, and goes on as the token calls for. -/
theorem exists_token_of_cut? {wanting : Bool} {cs : List Char} {c : Char} {tail : List Char}
    (hcs : skipBlanks cs = c :: tail) {ts : List Token} (h : cut? wanting cs = some ts) :
    ∃ tok after more, token? wanting (c :: tail) = some (tok, after) ∧
      cut? tok.wantsNode after = some more ∧ ts = tok :: more := by
  rw [cut?, hcs] at h
  obtain ⟨⟨tok, after⟩, htok, h⟩ := Option.bind_eq_some_iff.mp h
  simp only at h
  split at h
  · obtain ⟨more, hmore, rfl⟩ := Option.map_eq_some_iff.mp h
    exact ⟨tok, after, more, htok, hmore, rfl⟩
  · cases h

theorem cut?_printed_step [Unicode.Tables] {tok : Token} {us : List Token} (htok : tok.Printed)
    (hus : ∀ next ∈ us, next.Printed) {wanting : Bool} {cs : List Char}
    (hcs : skipBlanks cs = tok.spell ++ spaced us) {ts : List Token}
    (h : cut? wanting cs = some ts) (hknown : ∀ tok ∈ ts, tok.Known) :
    ∃ more, cut? tok.wantsNode (spaced us) = some more ∧ ts = tok :: more := by
  obtain ⟨c, tail, he, _, _⟩ := head_of_printed htok
  have hvisible := hcs
  rw [he, List.cons_append] at hvisible
  obtain ⟨tok', after, more, hread, hmore, rfl⟩ := exists_token_of_cut? hvisible h
  rw [← hvisible, hcs] at hread
  obtain ⟨rfl, rfl⟩ :=
    token?_printed htok (follows_printed tok hus) hread (hknown tok' List.mem_cons_self)
  exact ⟨more, hmore, rfl⟩

/-- Tokens that are read of what was printed are those that were printed. -/
theorem cut?_printed [Unicode.Tables] {tok : Token} {us : List Token} (htok : tok.Printed)
    (hus : ∀ next ∈ us, next.Printed) {wanting : Bool} {cs : List Char}
    (hcs : skipBlanks cs = tok.spell ++ spaced us) {ts : List Token}
    (h : cut? wanting cs = some ts) (hknown : ∀ tok ∈ ts, tok.Known) : ts = tok :: us := by
  induction us generalizing tok wanting cs ts with
  | nil =>
    obtain ⟨more, hmore, rfl⟩ := cut?_printed_step htok hus hcs h hknown
    cases (cut?_nil tok.wantsNode).symm.trans hmore
    rfl
  | cons next us ih =>
    obtain ⟨hnext, hus'⟩ := List.forall_mem_cons.mp hus
    obtain ⟨more, hmore, rfl⟩ := cut?_printed_step htok hus hcs h hknown
    rw [ih hnext hus' (skipBlanks_printed hnext us) hmore (List.forall_mem_cons.mp hknown).2]

end Query

/-- The text of a pattern is cut into its tokens, if all operators that are found there exist. -/
theorem Pattern.Tidy.tokens_of_cut? [Unicode.Tables] {p : Pattern} (h : p.Tidy) {ts : List Token}
    (hcut : Token.cut? true p.print = some ts) (hknown : ∀ tok ∈ ts, tok.Known) :
    ts = p.tokens := by
  have hprint := h.print
  have hprinted := h.printed
  cases htokens : p.tokens with
  | nil =>
    rw [htokens] at hprint
    cases hprint
  | cons tok us =>
    rw [htokens] at hprint hprinted
    obtain ⟨htok, hus⟩ := List.forall_mem_cons.mp hprinted
    have hskip : skipBlanks p.print = tok.spell ++ spaced us := by
      rw [← skipBlanks_printed htok, ← hprint]
      rfl
    exact cut?_printed htok hus hskip hcut hknown

end TreeQuery
