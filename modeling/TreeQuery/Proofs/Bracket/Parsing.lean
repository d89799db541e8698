import TreeQuery.Proofs.Bracket.Derivations

namespace TreeQuery

open Text

def Lexeme.chars : Lexeme → List Char
  | sign s | text s => s.toList

/-- The lexeme is not empty and begins with no blank. -/
def Lexeme.Visible (l : Lexeme) : Prop :=
  ∃ c cs, l.chars = c :: cs ∧ isBlank c = false

/-- No sign comes next that a run could go on with. -/
def Stops (q : Char → Bool) : List Lexeme → Prop
  | .sign s :: _ => ∃ c cs, s.toList = c :: cs ∧ q c = false
  | _ => True

section Spaced

variable {l : Lexeme} {ls : List Lexeme} {cs : List Char}

/-- Blanks are only in front of the first lexeme. -/
theorem Spaced.skipBlanks_eq (h : Spaced (l :: ls) cs) (hl : l.Visible) :
    ∃ rest, skipBlanks cs = l.chars ++ rest ∧ Spaced ls rest := by
  obtain ⟨c, more, hchars, hc⟩ := hl
  have hhead (rest : List Char) : ∀ d ∈ (l.chars ++ rest).head?, isBlank d = false := by
    intro d hd
    rw [hchars] at hd
    cases hd
    exact hc
  cases h with
  | @sign gap s _ rest hg hrest => exact ⟨rest, skipBlanks_append hg (hhead rest), hrest⟩
  | @text gap s _ rest hg hrest _ => exact ⟨rest, skipBlanks_append hg (hhead rest), hrest⟩

theorem Spaced.skipBlanks_sign {s : String} (h : Spaced (.sign s :: ls) cs)
    (hs : (Lexeme.sign s).Visible) : Spaced (.sign s :: ls) (skipBlanks cs) := by
  obtain ⟨rest, hcs, hrest⟩ := h.skipBlanks_eq hs
  rw [hcs]
  exact .sign blanks_nil hrest

/-- After a run there is none of its characters. -/
theorem Spaced.head_of_stops {q : Char → Bool} (h : Spaced ls cs)
    (hq : ∀ c, isBlank c = true → q c = false) (hstops : Stops q ls)
    (hblank : StartsText ls → StartsBlank cs) : ∀ c ∈ cs.head?, q c = false := by
  intro c hc
  cases h with
  | done hg => exact hq c (hg c (List.mem_of_mem_head? hc))
  | @sign gap s _ rest hg _ =>
    cases gap with
    | cons d gap =>
      cases hc
      exact hq c (hg c List.mem_cons_self)
    | nil =>
      obtain ⟨d, ds, hs, hd⟩ := hstops
      rw [hs] at hc
      cases hc
      exact hd
  | text => exact hq c ((hblank ⟨_, _, rfl⟩).head c hc)

end Spaced

namespace Bracket

open Grammar
open Grammar.Expr (sign opt loosely manyLoosely)
open Token (isWordChar)

abbrev Takes (e : Expr Rule) (ls : List Lexeme) (follow : List Lexeme → Prop) : Prop :=
  Grammar.Takes rules Spaced Spaced e ls follow

/-- Anything may follow. -/
abbrev TakesAlways (e : Expr Rule) (ls : List Lexeme) : Prop :=
  Takes e ls fun _ => True

abbrev Fails (e : Expr Rule) (ls : List Lexeme) (follow : List Lexeme → Prop) : Prop :=
  Grammar.Fails rules Spaced e ls follow

variable {e : Expr Rule} {s : String} {l : Lexeme} {ls : List Lexeme}
  {follow : List Lexeme → Prop}

/-- An expression for the characters of a sign. -/
theorem takes_sign (hs : (Lexeme.sign s).Visible)
    (he : ∀ rest, Parses rules e (s.toList ++ rest) (some ([], rest))) :
    TakesAlways e [.sign s] := by
  intro cs more _ h
  obtain ⟨rest, hcs, hrest⟩ := Spaced.skipBlanks_eq h hs
  exact ⟨[], rest, by rw [hcs]; exact he rest, hrest⟩

/-- Whether an expression fails may be told from the first lexeme alone. -/
theorem fails_of_spaced {cs : List Char} (h : Spaced (l :: ls) cs) (hl : l.Visible)
    (he : ∀ rest, Parses rules e (l.chars ++ rest) none) : Parses rules e (skipBlanks cs) none := by
  obtain ⟨rest, hcs, _⟩ := h.skipBlanks_eq hl
  rw [hcs]
  exact he rest

theorem fails_of_first (hl : l.Visible) (he : ∀ rest, Parses rules e (l.chars ++ rest) none) :
    Fails e (l :: ls) follow :=
  fun _ _ _ h => fails_of_spaced h hl he

theorem takes_run {r : Rule} {p q : Char → Bool} (h : TakesRun rules r p q) (hs : IsRun p q s)
    (hpq : ∀ c, p c = true → q c = true) (hq : ∀ c, isBlank c = true → q c = false) :
    Takes (.rule r) [.text s] (Stops q) := by
  intro cs more hmore hcs
  obtain ⟨gap, rest, hg, he, hrest, hblank⟩ := Spaced.text_iff.mp hcs
  have hvisible : ∀ c ∈ (s.toList ++ rest).head?, isBlank c = false := by
    obtain ⟨c, cs, hchars, hc, _⟩ := hs
    intro d hd
    rw [hchars] at hd
    cases hd
    refine Bool.eq_false_iff.mpr fun hb => ?_
    have hno := hpq c hc
    rw [hq c hb] at hno
    cases hno
  refine ⟨_, rest, h.parses_iff.mpr ⟨s, rfl, hs, ?_, hrest.head_of_stops hq hmore hblank⟩, hrest⟩
  rw [he, skipBlanks_append hg hvisible]

theorem run_fails {r : Rule} {p q : Char → Bool} (h : TakesRun rules r p q) {c : Char}
    (hc : p c = false) (cs : List Char) : Parses rules (.rule r) (c :: cs) none :=
  h.parses (by simp [run?, hc])

theorem opening_fails {kind : Char} {cs : List Char} (h : ∀ inner, cs ≠ '<' :: kind :: inner) :
    Parses rules (Rule.opening kind) cs none := by
  by_cases hcs : cs.head? = some '<'
  · obtain ⟨inner, hinner⟩ := List.head?_eq_some_iff.mp hcs
    subst cs
    refine .seqSecond (parses_sign.mpr ⟨rfl, rfl⟩) (sign_fails fun hk => ?_)
    obtain ⟨after, hafter⟩ := List.head?_eq_some_iff.mp hk
    exact h after (by rw [hafter])
  · exact .seqFirst (sign_fails hcs)

theorem takes_open : TakesAlways (sign '(') [.sign "("] :=
  takes_sign ⟨'(', [], rfl, rfl⟩ fun _ => parses_sign.mpr ⟨rfl, rfl⟩

theorem takes_close : TakesAlways (sign ')') [.sign ")"] :=
  takes_sign ⟨')', [], rfl, rfl⟩ fun _ => parses_sign.mpr ⟨rfl, rfl⟩

theorem takes_angle : TakesAlways (sign '>') [.sign ">"] :=
  takes_sign ⟨'>', [], rfl, rfl⟩ fun _ => parses_sign.mpr ⟨rfl, rfl⟩

theorem takes_opening {kind : Char} (hs : s.toList = ['<', kind]) :
    TakesAlways (Rule.opening kind) [.sign s] := by
  refine takes_sign ⟨'<', [kind], hs, rfl⟩ fun rest => ?_
  rw [hs]
  exact .seq (parses_sign.mpr ⟨rfl, rfl⟩) (parses_sign.mpr ⟨rfl, rfl⟩)

theorem takes_field (hs : IsField s) : Takes (.rule .field) [.text s] (Stops isFieldChar) :=
  takes_run takesRun_field (isRun_field.mpr hs) (fun _ h => h) fun c hc => by
    simp [isFieldChar, hc]

theorem takes_index (hs : Numeral.isNumeral s.toList = true) :
    Takes (.rule .index) [.text s] (Stops Char.isDigit) :=
  takes_run takesRun_index (isRun_index.mpr hs) (fun _ h => h) fun c hc => by
    simp only [isBlank, Bool.or_eq_true, decide_eq_true_eq] at hc
    rcases hc with ((hc | hc) | hc) | hc <;> rw [hc] <;> rfl

theorem takes_word (hs : IsWord s) : Takes (.rule .word) [.text s] (Stops isWordChar) :=
  takes_run takesRun_word (isRun_word.mpr hs) (fun _ h => h)
    fun _ => Token.isWordChar_of_isBlank

theorem takes_label (hs : IsLabel s) : Takes (.rule .label) [.text s] (Stops isWordChar) :=
  takes_run takesRun_label (isRun_label.mpr hs) (fun _ h => (Bool.and_eq_true_iff.mp h).2)
    fun _ => Token.isWordChar_of_isBlank

/-- The next lexeme is the sign. -/
def Next (s : String) (ls : List Lexeme) : Prop :=
  ∃ more, ls = .sign s :: more

/-- What may be left out is left out where it cannot begin. -/
theorem takes_nothing (hs : (Lexeme.sign s).Visible)
    (he : ∀ rest, Parses rules e (s.toList ++ rest) none) : Takes (opt e) [] (Next s) := by
  intro cs more ⟨after, hmore⟩ h
  subst hmore
  exact ⟨[], _, .choiceSecond (fails_of_spaced h hs he) .empty, Spaced.skipBlanks_sign h hs⟩

variable {label word category pos formerPos head arity : String} {predicate : Option String}
  {bs : List Bracket}

/-- A rule with a header fails on a bracket without one, or with another. -/
theorem header_fails {r : Rule} {kind : Char}
    (hr : (rules r).body = loosely (sign '(') (loosely (Rule.opening kind) e)) (hl : l.Visible)
    (hother : ∀ rest inner, l.chars ++ rest ≠ '<' :: kind :: inner) :
    Fails (.rule r) (.sign "(" :: l :: ls) fun _ => True := by
  have hopening : Fails (Rule.opening kind) (l :: ls) fun _ => True :=
    fails_of_first hl fun rest => opening_fails (hother rest)
  have hbody : Fails (rules r).body (.sign "(" :: l :: ls) fun _ => True := by
    rw [hr]
    exact takes_open.fails_loosely hopening.loosely fun _ _ => trivial
  exact hbody.rule

theorem takes_leaf (hlabel : IsLabel label) (hword : IsWord word) :
    TakesAlways (.rule .leaf) (leaf label word).lexemes := by
  have hlast := (takes_word hword).loosely takes_close fun _ _ => ⟨')', [], rfl, rfl⟩
  have hinner := (takes_label hlabel).loosely hlast fun _ _ => trivial
  have hbody : TakesAlways (rules .leaf).body (leaf label word).lexemes :=
    takes_open.loosely hinner fun _ _ => trivial
  exact hbody.rule

theorem takes_lexical (hcategory : IsField category) (hpos : IsField pos)
    (hformer : IsField formerPos) (hword : IsField word) (hpredicate : ∀ p ∈ predicate, IsField p) :
    TakesAlways (.rule .lexical) (lexical category pos formerPos word predicate).lexemes := by
  have hsigns : TakesAlways (loosely (sign '>') (sign ')')) [.sign ">", .sign ")"] :=
    takes_angle.loosely takes_close fun _ _ => trivial
  have hend : TakesAlways (loosely (opt (.rule .field)) (loosely (sign '>') (sign ')')))
      (predicate.toList.map .text ++ [.sign ">", .sign ")"]) := by
    cases predicate with
    | none =>
      have hnothing : Takes (opt (.rule .field)) [] (Next ">") :=
        takes_nothing ⟨'>', [], rfl, rfl⟩ (run_fails takesRun_field rfl)
      exact hnothing.loosely hsigns fun _ _ => ⟨_, rfl⟩
    | some p =>
      have hp := (takes_field (hpredicate p rfl)).choiceFirst (f := .empty)
      exact hp.loosely hsigns fun _ _ => ⟨'>', [], rfl, rfl⟩
  have hfourth := (takes_field hword).loosely hend fun more _ => by
    cases predicate with
    | none => exact ⟨'>', [], rfl, rfl⟩
    | some p => trivial
  have hthird := (takes_field hformer).loosely hfourth fun _ _ => trivial
  have hsecond := (takes_field hpos).loosely hthird fun _ _ => trivial
  have hfields := (takes_field hcategory).loosely hsecond fun _ _ => trivial
  have hheader := (takes_opening (s := "<L") rfl).loosely hfields fun _ _ => trivial
  have hbody : TakesAlways (rules .lexical).body
      (lexical category pos formerPos word predicate).lexemes :=
    takes_open.loosely hheader fun _ _ => trivial
  exact hbody.rule

theorem bracket_fails (rest : List Char) : Parses rules (.rule .bracket) (')' :: rest) none := by
  have hopen {r : Rule} {e : Expr Rule} (hr : (rules r).body = loosely (sign '(') e) :
      Parses rules (.rule r) (')' :: rest) none := rule_fails hr (by simp)
  exact .ruleFails (.choiceSecond (hopen rfl) (.choiceSecond (hopen rfl)
    (.choiceSecond (hopen rfl) (hopen rfl))))

theorem flatMap_lexemes (bs : List Bracket) : bs.flatMap lexemes = lexemesAll bs := by
  induction bs with
  | nil => rfl
  | cons b bs ih => rw [List.flatMap_cons, ih, lexemesAll]

theorem takes_children (hne : bs ≠ []) (hbs : ∀ b ∈ bs, TakesAlways (.rule .bracket) b.lexemes) :
    TakesAlways Rule.children (lexemesAll bs ++ [.sign ")"]) := by
  intro cs more _ h
  obtain ⟨b, others, he⟩ := List.exists_cons_of_ne_nil hne
  subst bs
  obtain ⟨hb, hothers⟩ := List.forall_mem_cons.mp hbs
  rw [lexemesAll, ← flatMap_lexemes, List.append_assoc, List.append_assoc] at h
  have hclosing : (Lexeme.sign ")").Visible := ⟨')', [], rfl, rfl⟩
  have hfails (ds : List Char) (hds : Spaced (.sign ")" :: more) ds) :
      Parses rules (.rule .bracket) (skipBlanks ds) none :=
    fails_of_spaced hds hclosing bracket_fails
  obtain ⟨us, mid, hfirst, hmid⟩ := hb cs _ trivial h
  obtain ⟨vs, left, hmore, hleft⟩ := takes_manyLoosely hothers (fun _ _ => trivial) hfails
    (fun ds hds => hds.skipBlanks_sign hclosing) hmid
  obtain ⟨ws, rest, hclose, hrest⟩ := takes_close left more trivial hleft
  have hall := parses_loosely.mpr ⟨us, mid, vs, hfirst, hmore, rfl⟩
  exact ⟨_, rest, parses_loosely.mpr ⟨_, left, ws, hall, hclose, rfl⟩, hrest⟩

theorem takes_derived (hcategory : IsField category) (hhead : Numeral.isNumeral head.toList = true)
    (harity : Numeral.isNumeral arity.toList = true) (hne : bs ≠ [])
    (hbs : ∀ b ∈ bs, TakesAlways (.rule .bracket) b.lexemes) :
    TakesAlways (.rule .derived) (derived category head arity bs).lexemes := by
  have hend := takes_angle.loosely (takes_children hne hbs) fun _ _ => trivial
  have hthird := (takes_index harity).loosely hend fun _ _ => ⟨'>', [], rfl, rfl⟩
  have hsecond := (takes_index hhead).loosely hthird fun _ _ => trivial
  have hfields := (takes_field hcategory).loosely hsecond fun _ _ => trivial
  have hheader := (takes_opening (s := "<T") rfl).loosely hfields fun _ _ => trivial
  have hbody : TakesAlways (rules .derived).body (derived category head arity bs).lexemes :=
    takes_open.loosely hheader fun _ _ => trivial
  exact hbody.rule

theorem takes_phrase {label : Option String} (hlabel : ∀ l ∈ label, IsLabel l) (hne : bs ≠ [])
    (hbs : ∀ b ∈ bs, TakesAlways (.rule .bracket) b.lexemes) :
    TakesAlways (.rule .phrase) (phrase label bs).lexemes := by
  obtain ⟨ls, hls⟩ := exists_lexemesAll hne
  have hchildren := takes_children hne hbs
  have hinner : TakesAlways (loosely (opt (.rule .label)) Rule.children)
      (label.toList.map .text ++ (lexemesAll bs ++ [.sign ")"])) := by
    cases label with
    | none =>
      have hnothing : Takes (opt (.rule .label)) [] (Next "(") :=
        takes_nothing ⟨'(', [], rfl, rfl⟩ (run_fails takesRun_label rfl)
      refine hnothing.loosely hchildren fun _ _ => ?_
      rw [hls]
      exact ⟨_, rfl⟩
    | some l =>
      have hl := (takes_label (hlabel l rfl)).choiceFirst (f := .empty)
      refine hl.loosely hchildren fun _ _ => ?_
      rw [hls]
      exact ⟨'(', [], rfl, rfl⟩
  have hbody : TakesAlways (rules .phrase).body (phrase label bs).lexemes := by
    have hopened := takes_open.loosely hinner fun _ _ => trivial
    rw [lexemes, List.append_assoc]
    exact hopened
  exact hbody.rule

/-- A phrase has a bracket where a leaf has its label or its word. -/
theorem leaf_fails_phrase {label : Option String} (hlabel : ∀ l ∈ label, IsLabel l)
    (hne : bs ≠ []) : Fails (.rule .leaf) (phrase label bs).lexemes fun _ => True := by
  obtain ⟨ls, hls⟩ := exists_lexemesAll hne
  have hopening : (Lexeme.sign "(").Visible := ⟨'(', [], rfl, rfl⟩
  have hbody : Fails (rules .leaf).body (phrase label bs).lexemes fun _ => True := by
    rw [lexemes, List.append_assoc, hls]
    cases label with
    | none =>
      have hno : Fails (.rule .label) (.sign "(" :: ls ++ [.sign ")"]) fun _ => True :=
        fails_of_first hopening (run_fails takesRun_label rfl)
      exact takes_open.fails_loosely hno.loosely fun _ _ => trivial
    | some l =>
      have hno : Fails (.rule .word) (.sign "(" :: ls ++ [.sign ")"]) fun _ => True :=
        fails_of_first hopening (run_fails takesRun_word rfl)
      have hlast := hno.loosely (f := sign ')')
      have hlabelled := (takes_label (hlabel l rfl)).fails_loosely hlast
        fun _ _ => ⟨'(', [], rfl, rfl⟩
      exact takes_open.fails_loosely hlabelled fun _ _ => trivial
  exact hbody.rule

/-- No header begins with what a bracket without one has first. -/
theorem takes_plain (hl : l.Visible) (hfirst : l.chars.head? ≠ some '<')
    (h : TakesAlways (.choice (.rule .leaf) (.rule .phrase)) (.sign "(" :: l :: ls)) :
    TakesAlways (.rule .bracket) (.sign "(" :: l :: ls) := by
  have hother {kind : Char} (rest inner : List Char) : l.chars ++ rest ≠ '<' :: kind :: inner := by
    obtain ⟨c, cs, hchars, _⟩ := hl
    rw [hchars] at hfirst ⊢
    exact fun he => hfirst (congrArg some (List.cons.inj he).1)
  have hbody : TakesAlways (rules .bracket).body (.sign "(" :: l :: ls) :=
    .choiceSecond (header_fails rfl hl hother) (.choiceSecond (header_fails rfl hl hother) h)
  exact hbody.rule

theorem visible_label (h : IsLabel label) : (Lexeme.text label).Visible := by
  obtain ⟨c, cs, hlabel⟩ := List.exists_cons_of_ne_nil h.1.1
  exact ⟨c, cs, hlabel, (h.1.2 c (by rw [hlabel]; exact List.mem_cons_self)).1⟩

theorem takes_bracket {b : Bracket} (h : b.Proper) : TakesAlways (.rule .bracket) b.lexemes := by
  induction h with
  | leaf hlabel hword =>
    exact takes_plain (visible_label hlabel) hlabel.2 (takes_leaf hlabel hword).choiceFirst
  | @phrase label children hlabel hne _ ih =>
    have hboth : TakesAlways (.choice (.rule .leaf) (.rule .phrase))
        (phrase label children).lexemes :=
      .choiceSecond (leaf_fails_phrase hlabel hne) (takes_phrase hlabel hne ih)
    obtain ⟨ls, hls⟩ := exists_lexemesAll hne
    rw [lexemes, List.append_assoc, hls] at hboth ⊢
    cases label with
    | none => exact takes_plain ⟨'(', [], rfl, rfl⟩ (by simp [Lexeme.chars]) hboth
    | some l => exact takes_plain (visible_label (hlabel l rfl)) (hlabel l rfl).2 hboth
  | lexical hcategory hpos hformer hword hpredicate =>
    have hbody := (takes_lexical hcategory hpos hformer hword hpredicate).choiceFirst
      (f := .choice (.rule .derived) (.choice (.rule .leaf) (.rule .phrase)))
    exact Grammar.Takes.rule (g := rules) (r := Rule.bracket) hbody
  | @derived category head arity children hcategory hhead harity hne _ ih =>
    have hno : Fails (.rule .lexical) (derived category head arity children).lexemes
        fun _ => True :=
      header_fails rfl ⟨'<', ['T'], rfl, rfl⟩ (by simp [Lexeme.chars])
    have hyes := takes_derived hcategory hhead harity hne ih
    have hbody : TakesAlways (rules .bracket).body (derived category head arity children).lexemes :=
      .choiceSecond hno hyes.choiceFirst
    exact hbody.rule

/-- What is spelled has a parse tree. -/
theorem Spelled.exists_parseTree {b : Bracket} {cs : List Char} (h : b.Spelled cs) :
    ∃ t, IsParseTree cs t := by
  have hspaced : Spaced (b.lexemes ++ []) cs := by
    rw [List.append_nil]
    exact h.2
  obtain ⟨ts, rest, hbracket, hrest⟩ := takes_bracket h.1 cs [] trivial hspaced
  have hend : skipBlanks rest = [] := by
    cases hrest with
    | done hg => exact skipBlanks_blanks hg
  have hnothing : Parses rules (.rule .endOfText) (skipBlanks rest) (some (_, [])) :=
    .rule (parses_end.mpr ⟨rfl, hend, rfl⟩)
  have hbody := parses_blanks.mpr (parses_loosely.mpr ⟨ts, rest, _, hbracket, hnothing, rfl⟩)
  exact ⟨_, parses_rule.mpr ⟨_, hbody, rfl⟩⟩

end Bracket

end TreeQuery
