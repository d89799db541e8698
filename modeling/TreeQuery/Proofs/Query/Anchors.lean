import TreeQuery.Proofs.Query.Regrouping
import TreeQuery.Regex.Engine
import TreeQuery.Unicode.Version15

namespace TreeQuery

namespace Query

open Text Token

/-- An anchor with nothing after it is a query. -/
theorem parse_of_anchor? [RegexEngine] {c : Char} {cs : List Char} (hblank : isBlank c = false)
    (hbrace : c ≠ '{') {l : Literal} (h : anchor? (c :: cs) = some (.anchor l, [])) :
    Pattern.parse (String.ofList (c :: cs)) = l.resolve.map .ofAnchor := by
  have hskip : skipBlanks (c :: cs) = c :: cs :=
    skipBlanks_of_visible fun x hx => by
      cases hx
      exact hblank
  have htok : token? true (c :: cs) = some (.anchor l, []) := by
    change node? (c :: cs) = _
    rw [node?, h]
    rintro _ hx
    cases hx
    exact hbrace rfl
  have hcut : cut? true (c :: cs) = some [.anchor l] := by
    rw [cut?_of_token? hskip htok (Nat.zero_le _), cut?_nil]
    rfl
  rw [Pattern.parse, String.toList_ofList, NodePhrase.ofText?, hcut]
  change NodePhrase.resolve ⟨.anchor l, []⟩ = _
  rw [NodePhrase.resolve, resolveAll, Phrase.resolve]
  cases l.resolve <;> rfl

/-- What is read as a base is a query of its own. -/
theorem parse_of_base [RegexEngine] {c : Char} {cs : List Char} (hblank : isBlank c = false)
    (hbrace : c ≠ '{') {b : Base} (h : base? (c :: cs) = some (b, [])) :
    Pattern.parse (String.ofList (c :: cs)) = b.resolve.map .ofAnchor := by
  have hanchor : anchor? (c :: cs) = some (.anchor ⟨b, none⟩, []) := by
    rw [anchor?, h]
    rfl
  rw [parse_of_anchor? hblank hbrace hanchor, Literal.resolve]
  cases b.resolve <;> rfl

section Texts

/-- An anchor is read as the base that its text is read as. -/
theorem parse_of_base? [Unicode.Tables] [RegexEngine] {a : Anchor} {b b' : Base}
    (ha : a.print = b.spell) (h : base? b.spell = some (b', [])) :
    Pattern.parse a.toText = b'.resolve.map .ofAnchor := by
  obtain ⟨c, cs, he, hblank, hbrace⟩ := head_of_spell_base b
  rw [he] at h
  rw [Anchor.toText, ha, he, parse_of_base hblank hbrace h]

theorem quoted?_spell [Unicode.Tables] (s : String) :
    quoted? ((Value.text s).spell false) = some (.text (reread s), []) := by
  have h := quoted?_encode s []
  rwa [List.append_nil] at h

variable (s : String)

/-- A label in quotes may be read as another one; without quotes it is read as it stands. -/
theorem parse_label [Unicode.Tables] [RegexEngine] : Pattern.parse (Anchor.label s).toText =
    .ok (.ofAnchor (.label (if isBare s.toList then s else reread s))) := by
  have hprint : (Anchor.label s).print = (Base.label (.text s)).spell :=
    Base.print_eq_spell rfl
  by_cases hbare : isBare s.toList = true
  · have hread : base? (Base.label (.text s)).spell = some (.label (.text s), []) := by
      have h : base? (s.toList ++ []) = some (.label (.text s), []) :=
        label?_bare hbare fun _ hx => by cases hx
      rwa [List.append_nil, ← Value.spell_bare hbare] at h
    rw [parse_of_base? hprint hread, if_pos hbare]
    rfl
  · have hspell : (Base.label (.text s)).spell = (Value.text s).spell false := by
      simp [Base.spell, Value.spell, hbare]
    have hread : base? (Base.label (.text s)).spell = some (.label (.text (reread s)), []) := by
      have hquoted : quoted? (Quoted.encode s.toList) = some (.text (reread s), []) :=
        quoted?_spell s
      rw [hspell]
      change base? (Quoted.encode s.toList) = _
      rw [Quoted.encode, List.cons_append] at hquoted ⊢
      rw [base?_of_unmarked (by decide), hquoted]
      rfl
    rw [parse_of_base? hprint hread, if_neg hbare]
    rfl

theorem parse_word [Unicode.Tables] [RegexEngine] : Pattern.parse (Anchor.word s).toText =
    .ok (.ofAnchor (.word (reread s))) := by
  have hprint : (Anchor.word s).print = (Base.word (.text s)).spell := Base.print_eq_spell rfl
  have hregex : regex? ((Value.text s).spell false) = none := rfl
  have hread : base? (Base.word (.text s)).spell = some (.word (.text (reread s)), []) := by
    simp only [Base.spell, base?, hregex, quoted?_spell, Option.none_or, Option.some_or,
      Option.map_some]
  rw [parse_of_base? hprint hread]
  rfl

theorem parse_quoted_category [Unicode.Tables] [RegexEngine] : Pattern.parse
    (Anchor.category s).toText = .ok (.ofAnchor (.category (reread s))) := by
  have hprint : (Anchor.category s).print = (Base.category (.text s)).spell :=
    Base.print_eq_spell rfl
  have hregex : regex? ((Value.text s).spell false) = none := rfl
  have hread : base? (Base.category (.text s)).spell = some (.category (.text (reread s)), []) := by
    simp only [Base.spell, base?, hregex, quoted?_spell, Option.none_or, Option.some_or,
      Option.map_some]
  rw [parse_of_base? hprint hread]
  rfl

/-- A text is read back exactly if no character of it is spelled as a code; a label also if it needs
no quotes. -/
theorem parse_text_anchor_iff [Unicode.Tables] [RegexEngine] :
    (Pattern.parse (Anchor.label s).toText = .ok (.ofAnchor (.label s)) ↔
      isBare s.toList = true ∨ ∀ c ∈ s.toList, Quoted.IsPlain c) ∧
    (Pattern.parse (Anchor.word s).toText = .ok (.ofAnchor (.word s)) ↔
      ∀ c ∈ s.toList, Quoted.IsPlain c) ∧
    (Pattern.parse (Anchor.category s).toText = .ok (.ofAnchor (.category s)) ↔
      ∀ c ∈ s.toList, Quoted.IsPlain c) := by
  rw [parse_label, parse_word, parse_quoted_category, ← reread_eq_self_iff]
  refine ⟨?_, by simp [Pattern.ofAnchor], by simp [Pattern.ofAnchor]⟩
  by_cases hbare : isBare s.toList = true <;> simp [Pattern.ofAnchor, hbare]

/-- A tab is spelled as a code, and read as a backslash and a letter. -/
theorem not_parse_text_anchor :
    (Anchor.label "a\tb").toText = "\"a\\tb\"" ∧
      Pattern.parse (Anchor.label "a\tb").toText = .ok (.ofAnchor (.label "a\\tb")) ∧
      Pattern.parse (Anchor.word "a\tb").toText = .ok (.ofAnchor (.word "a\\tb")) ∧
      Pattern.parse (Anchor.category "a\tb").toText = .ok (.ofAnchor (.category "a\\tb")) := by
  decide +kernel

end Texts

section Origins

open Pattern

variable [RegexEngine]

theorem anchors_foldl_constrain {a : Anchor} {ps : List Pattern} {p : Pattern}
    (h : a ∈ (ps.foldl constrain p).anchors) :
    a = .any ∨ a ∈ p.anchors ∨ ∃ c ∈ ps, a ∈ c.anchors := by
  induction ps generalizing p with
  | nil => exact .inr (.inl h)
  | cons c ps ih =>
    have hconstrain : a ∈ (constrain p c).anchors →
        a = .any ∨ a ∈ p.anchors ∨ a ∈ c.anchors := by
      intro hm
      cases p with
      | node b cs =>
        simpa [constrain, anchors, collect, collectAll_eq, or_assoc] using Or.inr hm
      | _ => simpa [constrain, anchors, collect, collectAll_eq, or_assoc] using hm
    rcases ih h with rfl | hm | ⟨d, hd, hm⟩
    · exact .inl rfl
    · rcases hconstrain hm with rfl | hm | hm
      · exact .inl rfl
      · exact .inr (.inl hm)
      · exact .inr (.inr ⟨c, List.mem_cons_self, hm⟩)
    · exact .inr (.inr ⟨d, List.mem_cons_of_mem _ hd, hm⟩)

theorem anchors_alternatives {a : Anchor} {p : Pattern} {ps : List Pattern}
    (h : a ∈ (Query.alternatives p ps).anchors) : ∃ q ∈ p :: ps, a ∈ q.anchors := by
  induction ps generalizing p with
  | nil => exact ⟨p, List.mem_cons_self, h⟩
  | cons q ps ih =>
    rcases List.mem_append.mp h with hm | hm
    · exact ⟨p, List.mem_cons_self, hm⟩
    · obtain ⟨x, hx, hm⟩ := ih hm
      exact ⟨x, List.mem_cons_of_mem _ hx, hm⟩

theorem anchors_enclose (capture : Option String) (p : Pattern) :
    (enclose capture p).anchors = p.anchors := by
  cases capture with
  | none => rfl
  | some var => exact List.append_nil _

/-- The anchor is written as one of the tokens, unless it is the one that any node has. -/
def Anchored (ts : List Token) (a : Anchor) : Prop :=
  a = .any ∨ ∃ l : Literal, .anchor l ∈ ts ∧ l.resolve = .ok a

theorem Anchored.mono {ts us : List Token} {a : Anchor} (h : Anchored ts a) (hs : ts ⊆ us) :
    Anchored us a :=
  h.imp_right fun ⟨l, hl, ha⟩ => ⟨l, hs hl, ha⟩

/-- Every anchor of what the phrase is read as is written in it. -/
def AnchorsWritten (ph : Phrase) : Prop :=
  ∀ q, ph.resolve = .ok q → ∀ a ∈ q.anchors, Anchored ph.tokens a

theorem anchored_all {phs : List Phrase} (h : ∀ ph ∈ phs, AnchorsWritten ph) {ps : List Pattern}
    (hps : resolveAll phs = .ok ps) {ts : List Token} (hts : ∀ ph ∈ phs, ph.tokens ⊆ ts) :
    ∀ p ∈ ps, ∀ a ∈ p.anchors, Anchored ts a := by
  induction phs generalizing ps with
  | nil =>
    cases hps
    exact fun _ hp => absurd hp List.not_mem_nil
  | cons ph phs ih =>
    obtain ⟨q, qs, hq, hqs, rfl⟩ := resolveAll_cons.mp hps
    obtain ⟨h, hs⟩ := List.forall_mem_cons.mp h
    obtain ⟨ht, hts⟩ := List.forall_mem_cons.mp hts
    exact List.forall_mem_cons.mpr ⟨fun a ha => (h q hq a ha).mono ht, ih hs hqs hts⟩

theorem anchored_node {n : NodePhrase} (hhead : AnchorsWritten n.head)
    (hcs : ∀ c ∈ n.constraints, AnchorsWritten c) {p : Pattern} (hp : n.resolve = .ok p) :
    ∀ a ∈ p.anchors, Anchored n.tokens a := by
  obtain ⟨ps, q, hps, hq, rfl⟩ := NodePhrase.resolve_eq_ok.mp hp
  intro a ha
  rcases anchors_foldl_constrain ha with hany | ha | ⟨c, hc, ha⟩
  · exact .inl hany
  · exact (hhead q hq a ha).mono (List.subset_append_left _ _)
  · have hts : ∀ ph ∈ n.constraints, ph.tokens ⊆ n.tokens := fun ph hph =>
      List.subset_append_of_subset_right _ (tokens_subset_all hph)
    exact anchored_all hcs hps hts c hc a ha

theorem anchorsWritten {r : Role} {ph : Phrase} (h : Shaped r ph) : AnchorsWritten ph := by
  induction h with
  | @group head cs capture _ _ ihhead ihcs =>
    intro q hq a ha
    rw [Phrase.resolve_group] at hq
    obtain ⟨p, hp, rfl⟩ := map_eq_ok.mp hq
    rw [anchors_enclose] at ha
    have hsub : NodePhrase.tokens ⟨head, cs⟩ ⊆ (Phrase.group head cs capture).tokens :=
      fun _ hm => List.mem_append_left _ (List.mem_cons_of_mem _ hm)
    exact (anchored_node ihhead ihcs hp a ha).mono hsub
  | anchor l =>
    intro q hq a ha
    obtain ⟨b, hb, rfl⟩ := map_eq_ok.mp hq
    cases List.mem_singleton.mp ha
    exact .inr ⟨l, List.mem_cons_self, hb⟩
  | bracedItem _ ih | bracedUnary _ ih | single _ ih => exact ih
  | relation symbol _ ih =>
    intro q hq a ha
    obtain ⟨op, p, _, hp, rfl⟩ := resolve_relation hq
    exact (ih p hp a ha).mono (List.subset_cons_self _ _)
  | not _ ih | optional _ ih =>
    intro q hq a ha
    obtain ⟨p, hp, rfl⟩ := map_eq_ok.mp hq
    exact (ih p hp a ha).mono (List.subset_cons_self _ _)
  | @all ms _ _ ih =>
    intro q hq a ha
    obtain ⟨ps, hps, rfl⟩ := map_eq_ok.mp hq
    obtain ⟨p, hp, ha⟩ : ∃ p ∈ ps, a ∈ p.anchors := by
      rwa [anchors, collect, collectAll_eq, List.mem_flatMap] at ha
    have hts : ∀ m ∈ ms, m.tokens ⊆ (Phrase.all ms).tokens := fun m hm _ ht =>
      List.mem_append_left _ (List.mem_cons_of_mem _ (tokens_subset_all hm ht))
    exact anchored_all ih hps hts p hp a ha
  | @alternatives first second others _ _ ih ihs =>
    intro q hq a ha
    obtain ⟨x, xs, hx, hxs, rfl⟩ := resolve_alternatives.mp hq
    obtain ⟨p, hp, hm⟩ := anchors_alternatives ha
    rcases List.mem_cons.mp hp with rfl | hp
    · exact (ih p hx a hm).mono (List.subset_append_left _ _)
    · have hts : ∀ ph ∈ second :: others,
          ph.tokens ⊆ (Phrase.alternatives first second others).tokens := fun ph hph =>
        List.subset_append_of_subset_right _ (tokens_subset_barred hph)
      exact anchored_all ihs hxs hts p hp a hm

omit [RegexEngine] in
theorem anchor?_of_token? {wanting : Bool} {cs rest : List Char} {l : Literal}
    (h : token? wanting cs = some (.anchor l, rest)) : anchor? cs = some (.anchor l, rest) := by
  cases wanting with
  | true =>
    have hn : node? cs = some (.anchor l, rest) := h
    unfold node? at hn
    split at hn
    · cases hn
    · exact hn
  | false =>
    have hc : constraint? cs = some (.anchor l, rest) := h
    unfold constraint? at hc
    split at hc
    case h_8 => split at hc <;> cases hc
    case h_9 => split at hc <;> cases hc
    all_goals cases hc

/-- An anchor of a pattern that was read, unless it is the one that any node has, was cut off as a
token from what was left of the query at some point. -/
theorem exists_literal_of_parse {query : String} {p : Pattern} (h : Pattern.parse query = .ok p)
    {a : Anchor} (ha : a ∈ p.anchors) (hany : a ≠ .any) : ∃ l : Literal,
      l.resolve = .ok a ∧ l.Written ∧ ∃ left after, left.length ≤ query.toList.length ∧
        anchor? left = some (.anchor l, after) := by
  unfold Pattern.parse at h
  split at h
  · rename_i n hn
    obtain ⟨ts, hts, hn⟩ := Option.bind_eq_some_iff.mp hn
    obtain ⟨hshaped, rfl⟩ := NodePhrase.ofTokens?_eq_some.mp hn
    have hwritten := anchored_node (anchorsWritten hshaped.head)
      (fun c hc => anchorsWritten (hshaped.constraints c hc)) h a ha
    obtain ⟨l, hl, hresolve⟩ := hwritten.resolve_left hany
    obtain ⟨wanting, left, after, hle, htok⟩ := exists_token?_of_cut? hts _ hl
    exact ⟨l, hresolve, written_of_cut? hts _ hl, left, after, hle, anchor?_of_token? htok⟩
  · cases h

end Origins

section Lengths

variable {cs rest : List Char}

theorem var?_eq_append {v : String} (h : var? cs = some (v, rest)) : cs = v.toList ++ rest := by
  cases cs with
  | nil => cases h
  | cons c cs =>
    rw [var?] at h
    split at h
    · cases h
      simp
    · cases h

theorem capture_eq_append (cs : List Char) :
    cs = spellCapture (Token.capture cs).1 ++ (Token.capture cs).2 := by
  unfold Token.capture
  split
  · split
    · rename_i hv
      rw [var?_eq_append hv]
      rfl
    · rfl
  · rfl

theorem length_spell_lt [Unicode.Tables] {source : String} {anchored : Bool}
    (h : regex? cs = some (.regex source anchored, rest)) (hm : '/' ∈ source.toList)
    (bare : Bool) :
    ((Value.regex source anchored).spell bare).length + rest.length < cs.length := by
  unfold regex? at h
  split at h
  · rename_i tail
    obtain ⟨⟨body, after⟩, hbody, he⟩ := Option.map_eq_some_iff.mp h
    have htail := congrArg List.length (Quoted.eq_append_of_body? hbody)
    have hlonger (hs : '/' ∈ (String.ofList (Quoted.unescapeSlashes body)).toList) :
        (Quoted.unescapeSlashes body).length < body.length := by
      rw [String.toList_ofList, Quoted.mem_unescapeSlashes (by decide)] at hs
      exact Quoted.length_unescapeSlashes_lt hbody hs
    simp only at he
    split at he
    all_goals
      cases he
      have hlt := hlonger hm
      simp only [Value.spell, List.length_append, List.length_cons, String.toList_ofList] at htail ⊢
      simp
      omega
  · cases h

/-- Of the readers of a value only the one of expressions gives an expression. -/
def GivesText (reader : Option (Value × List Char)) : Prop :=
  ∀ v after, reader = some (v, after) → ∃ s, v = .text s

theorem givesText_bare (cs : List Char) : GivesText (bare? cs) := by
  intro v after h
  unfold bare? at h
  split at h
  · split at h
    · cases h
      exact ⟨_, rfl⟩
    · cases h
  · cases h

theorem givesText_category (cs : List Char) : GivesText (category? cs) := by
  intro v after h
  unfold category? at h
  split at h
  · cases h
  · cases h
    exact ⟨_, rfl⟩

theorem givesText_quoted_or (cs : List Char) {other : Option (Value × List Char)}
    (h : GivesText other) : GivesText ((quoted? cs).or other) := by
  intro v after ho
  rcases Option.or_eq_some_iff.mp ho with hq | ⟨_, ho⟩
  · unfold quoted? at hq
    split at hq
    · obtain ⟨_, _, he⟩ := Option.map_eq_some_iff.mp hq
      cases he
      exact ⟨_, rfl⟩
    · cases hq
  · exact h v after ho

theorem GivesText.resolve [RegexEngine] {reader first : Option (Value × List Char)}
    (h : GivesText reader) {source : String} {anchored : Bool}
    (ho : first.or reader = some (.regex source anchored, rest)) :
    first = some (.regex source anchored, rest) := by
  rcases Option.or_eq_some_iff.mp ho with hf | ⟨_, hr⟩
  · exact hf
  · obtain ⟨_, he⟩ := h _ _ hr
    cases he

theorem length_spell_base_lt [Unicode.Tables] [RegexEngine] {b : Base}
    (h : base? cs = some (b, rest)) {a : Anchor}
    (hb : b.resolve = .ok a) {re : TextRegex} (hre : a.regex? = some re)
    (hm : '/' ∈ re.source.toList) : b.spell.length + rest.length < cs.length := by
  cases b with
  | label v =>
    rcases Value.of_resolve hb with ⟨s, rfl, rfl⟩ | ⟨re', rfl, rfl⟩
    · cases hre
    cases hre
    unfold base? at h
    split at h
    case h_3 =>
      obtain ⟨⟨v, after⟩, hv, he⟩ := Option.map_eq_some_iff.mp h
      cases he
      exact length_spell_lt hv hm true
    case h_8 =>
      obtain ⟨⟨v, after⟩, hv, he⟩ := Option.map_eq_some_iff.mp h
      cases he
      obtain ⟨_, he⟩ := givesText_quoted_or _ (givesText_bare _) _ _ hv
      cases he
    all_goals simp at h
  | word v =>
    rcases Value.of_resolve hb with ⟨s, rfl, rfl⟩ | ⟨re', rfl, rfl⟩
    · cases hre
    cases hre
    unfold base? at h
    split at h
    case h_4 =>
      obtain ⟨⟨v, after⟩, hv, he⟩ := Option.map_eq_some_iff.mp h
      cases he
      have hregex := (givesText_quoted_or _ (givesText_bare _)).resolve hv
      have hlt := length_spell_lt hregex hm false
      simp only [Base.spell, List.length_cons]
      omega
    all_goals simp at h
  | category v =>
    rcases Value.of_resolve hb with ⟨s, rfl, rfl⟩ | ⟨re', rfl, rfl⟩
    · cases hre
    cases hre
    unfold base? at h
    split at h
    case h_5 =>
      obtain ⟨⟨v, after⟩, hv, he⟩ := Option.map_eq_some_iff.mp h
      cases he
      have hregex := (givesText_quoted_or _ (givesText_category _)).resolve hv
      have hlt := length_spell_lt hregex hm false
      simp only [Base.spell, List.length_cons]
      omega
    all_goals simp at h
  | any | sameAs var | differentFrom var =>
    cases hb
    cases hre

/-- An anchor whose source has slashes takes more of a query than its own text is long. -/
theorem length_spell_anchor_lt [Unicode.Tables] [RegexEngine] {l : Literal}
    (h : anchor? cs = some (.anchor l, rest))
    {a : Anchor} (hl : l.resolve = .ok a) {re : TextRegex} (hre : a.regex? = some re)
    (hm : '/' ∈ re.source.toList) : l.spell.length < cs.length := by
  obtain ⟨⟨b, after⟩, hbase, he⟩ := Option.map_eq_some_iff.mp h
  have hcapture := congrArg List.length (capture_eq_append after)
  simp only at he
  generalize Token.capture after = captured at he hcapture
  cases he
  obtain ⟨anchor, hb, rfl⟩ := map_eq_ok.mp hl
  have hre' : anchor.regex? = some re := by
    rw [← hre]
    cases captured.1 <;> rfl
  have hlt := length_spell_base_lt hbase hb hre' hm
  simp only [Literal.spell, List.length_append] at hcapture ⊢
  omega

end Lengths

theorem text?_eq_none [RegexEngine] {a : Anchor} {re : TextRegex}
    (h : a.regex? = some re) : a.text? = none := by
  induction a with
  | capture a var ih => exact ih h
  | labelMatching | wordMatching | categoryMatching => rfl
  | _ => cases h

/-- An expression is read back, whether it is of labels, words or categories, anchored or not and
captured or not, exactly if its source has no slash. -/
theorem parse_regex_anchor_iff [Unicode.Tables] [RegexEngine] {query : String} {p : Pattern}
    (h : Pattern.parse query = .ok p)
    {a : Anchor} (ha : a ∈ p.anchors) {re : TextRegex} (hre : a.regex? = some re) :
    Pattern.parse a.toText = .ok (.ofAnchor a) ↔ '/' ∉ re.source.toList := by
  have hany : a ≠ .any := by
    rintro rfl
    cases hre
  constructor
  · intro hread hm
    obtain ⟨l, hl, _, left, after, hle, hcut⟩ :=
      exists_literal_of_parse hread List.mem_cons_self hany
    have hlt := length_spell_anchor_lt hcut hl hre hm
    rw [Anchor.toText, String.toList_ofList, Literal.print_eq_spell hl] at hle
    omega
  · intro hno
    obtain ⟨l, hl, hwritten, _⟩ := exists_literal_of_parse h ha hany
    have hprintable : a.Printable := by
      constructor
      · intro s hs
        rw [text?_eq_none hre] at hs
        cases hs
      · intro re' hre'
        cases hre.symm.trans hre'
        exact hno
    have hprints := prints_anchor (Literal.legible_of_resolve hwritten hl hprintable) hl
      (Literal.print_eq_spell hl)
    have hparse := hprints.toNode.parse
    rwa [Pattern.toText, Pattern.ofAnchor, Pattern.print, Pattern.printAll,
      List.append_nil] at hparse

/-- The expression that an anchor of words has in the second constraint of a query. -/
def letters : TextRegex where
  source := "b+"
  anchored := false
  regex := Regex.repeated (.set (.single 'b')) 1 none
  compiled := show Regex.ofSource? _ = some _ by decide +kernel

theorem parse_regex_anchor_iff_letters :
    Pattern.parse "S < NP >> ^/b+/a=V" = .ok (.node (.label "S")
      [.related .child (.ofAnchor (.label "NP")),
        .related .ancestor (.ofAnchor (.capture (.wordMatching letters) "V"))]) ∧
    (Pattern.parse (Anchor.capture (.wordMatching letters) "V").toText =
      .ok (.ofAnchor (.capture (.wordMatching letters) "V")) ↔
        '/' ∉ letters.source.toList) := by
  have h : Pattern.parse "S < NP >> ^/b+/a=V" = .ok (.node (.label "S")
      [.related .child (.ofAnchor (.label "NP")),
        .related .ancestor (.ofAnchor (.capture (.wordMatching letters) "V"))]) := by
    decide +kernel
  exact ⟨h, parse_regex_anchor_iff h (by decide) rfl⟩

/-- An expression with an escaped slash. -/
def slashed : TextRegex where
  source := "a/b"
  anchored := true
  regex := Regex.seq (.look .textStart)
    (.seq (.set (.single 'a')) (.seq (.set (.single '/')) (.set (.single 'b'))))
  compiled := show Regex.ofSource? _ = some _ by decide +kernel

/-- The slash is printed without the backslash that it was written with, so that it closes the
expression, and what follows is no query. -/
theorem not_parse_regex_anchor :
    Pattern.parse "/a\\/b/" = .ok (.ofAnchor (.labelMatching slashed)) ∧
      (Anchor.labelMatching slashed).toText = "/a/b/" ∧
      Pattern.parse (Anchor.labelMatching slashed).toText = .error .notAQuery := by
  decide +kernel

end Query

end TreeQuery
