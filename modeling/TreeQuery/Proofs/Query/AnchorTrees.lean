import TreeQuery.Proofs.Query.Terminals

namespace TreeQuery.Query

open Text Grammar
open Grammar.Expr (sign opt)
open Token (var? regex? quoted? bare? category? base? isVarStart isOperatorChar)

variable {cs rest : List Char} {e f : Expr Rule}

section Realizes

variable {α β : Type} {read read' : List Char → Option (α × List Char)}
  {value : QueryTree → Option α}

/-- The expression takes what the reader takes, and its tree stands for what is read. -/
structure Realizes (e : Expr Rule) (read : List Char → Option (α × List Char))
    (value : QueryTree → Option α) : Prop where
  found : ∀ {cs a rest}, read cs = some (a, rest) →
    ∃ t, value t = some a ∧ Parses rules e cs (some ([t], rest))
  missing : ∀ {cs}, read cs = none → Parses rules e cs none

theorem Realizes.of_parses (h : Realizes e read value) {ts : List QueryTree}
    (hp : Parses rules e cs (some (ts, rest))) :
    ∃ t a, ts = [t] ∧ value t = some a ∧ read cs = some (a, rest) := by
  cases hread : read cs with
  | none => cases hp.unique (h.missing hread)
  | some x =>
    obtain ⟨t, ht, hfound⟩ := h.found (show _ = some (x.1, x.2) from hread)
    cases hp.unique hfound
    exact ⟨t, x.1, rfl, ht, rfl⟩

theorem Realizes.choice (he : Realizes e read value) (hf : Realizes f read' value) :
    Realizes (.choice e f) (fun cs => (read cs).or (read' cs)) value where
  found := by
    intro cs a rest h
    rcases Option.or_eq_some_iff.mp h with h | ⟨hnone, h⟩
    · obtain ⟨t, hv, ht⟩ := he.found h
      exact ⟨t, hv, .choiceFirst ht⟩
    · obtain ⟨t, hv, ht⟩ := hf.found h
      exact ⟨t, hv, .choiceSecond (he.missing hnone) ht⟩
  missing := by
    intro cs h
    obtain ⟨hnone, h⟩ := Option.or_eq_none_iff.mp h
    exact .choiceSecond (he.missing hnone) (hf.missing h)

/-- The same trees, standing for something else. -/
theorem Realizes.map {value' : QueryTree → Option β} (h : Realizes e read value) (φ : α → β)
    (hv : ∀ t a, value t = some a → value' t = some (φ a)) :
    Realizes e (fun cs => (read cs).map fun x => (φ x.1, x.2)) value' where
  found := by
    intro cs b rest hb
    obtain ⟨x, hx, he⟩ := Option.map_eq_some_iff.mp hb
    cases he
    obtain ⟨t, ht, hp⟩ := h.found hx
    exact ⟨t, hv t _ ht, hp⟩
  missing := fun hnone => h.missing (Option.map_eq_none_iff.mp hnone)

theorem Realizes.congr (h : Realizes e read value) (heq : ∀ cs, read cs = read' cs) :
    Realizes e read' value where
  found := fun hs => h.found ((heq _).trans hs)
  missing := fun hs => h.missing ((heq _).trans hs)

/-- A rule of one character and what follows it. -/
def afterMark (c : Char) (read : List Char → Option (α × List Char)) :
    List Char → Option (α × List Char)
  | d :: cs => if d = c then read cs else none
  | [] => none

theorem Realizes.marked {r : Rule} {c : Char} {value' : QueryTree → Option β}
    (hr : rules r = ⟨.tree, .seq (sign c) e⟩) (h : Realizes e read value) (φ : α → β)
    (hv : ∀ text t a, value t = some a → value' (.node r text [t]) = some (φ a)) :
    Realizes (.rule r) (fun cs => (afterMark c read cs).map fun x => (φ x.1, x.2)) value' where
  found := by
    intro cs b rest hb
    obtain ⟨x, hx, he⟩ := Option.map_eq_some_iff.mp hb
    cases he
    cases cs with
    | nil => cases hx
    | cons d cs =>
      by_cases hd : d = c
      · rw [afterMark, if_pos hd] at hx
        obtain ⟨t, ht, hp⟩ := h.found hx
        have hsign : Parses rules (sign c) (d :: cs) (some ([], cs)) := .char (by simp [hd])
        have hbody := Parses.seq hsign hp
        refine ⟨.node r (taken (d :: cs) x.2) [t], hv _ t _ ht, ?_⟩
        refine parses_rule.mpr ⟨[t], ?_, ?_⟩
        · rw [hr]
          exact hbody
        · rw [hr]
          rfl
      · rw [afterMark, if_neg hd] at hx
        cases hx
  missing := by
    intro cs hnone
    have hx := Option.map_eq_none_iff.mp hnone
    apply Parses.ruleFails
    rw [hr]
    cases cs with
    | nil => exact .seqFirst .charEnd
    | cons d cs =>
      by_cases hd : d = c
      · rw [afterMark, if_pos hd] at hx
        exact .seqSecond (.char (by simp [hd])) (h.missing hx)
      · exact .seqFirst (.charOther (by simp [hd]))

theorem Realizes.silent {r : Rule} (hr : rules r = ⟨.silent, e⟩) (h : Realizes e read value) :
    Realizes (.rule r) read value where
  found := by
    intro cs a rest ha
    obtain ⟨t, ht, hp⟩ := h.found ha
    refine ⟨t, ht, parses_rule.mpr ⟨[t], ?_, ?_⟩⟩
    · rw [hr]
      exact hp
    · rw [hr]
      rfl
  missing := by
    intro cs hnone
    apply Parses.ruleFails
    rw [hr]
    exact h.missing hnone

/-- A token of one kind of character and all that follow of another. -/
theorem realizes_runToken {r : Rule} {p q : Char → Bool} (h : TakesRun rules r p q)
    (φ : String → α) (hv : ∀ text, value (.node r text []) = some (φ text)) :
    Realizes (.rule r) (fun cs => (run? p q cs).map fun x => (φ x.1, x.2)) value where
  found := by
    intro cs a rest ha
    obtain ⟨x, hx, he⟩ := Option.map_eq_some_iff.mp ha
    cases he
    exact ⟨_, hv x.1, h.parses (by rw [hx]; rfl)⟩
  missing := by
    intro cs hnone
    exact h.parses (by rw [Option.map_eq_none_iff.mp hnone]; rfl)

end Realizes

theorem parses_unanchored (cs : List Char) : Parses rules (opt (.rule .unanchored)) ('a' :: cs)
    (some ([.node .unanchored (taken ('a' :: cs) cs) []], cs)) :=
  .choiceFirst (.rule (.char rfl))

/-- An anchored expression has no mark. -/
theorem parses_anchored (h : ∀ tail, cs ≠ 'a' :: tail) :
    Parses rules (opt (.rule .unanchored)) cs (some ([], cs)) := by
  refine .choiceSecond (.ruleFails ?_) .empty
  cases cs with
  | nil => exact .charEnd
  | cons c cs =>
    refine .charOther ?_
    have hc : c ≠ 'a' := fun hc => h cs (by rw [hc])
    simp [hc]

theorem realizes_regex : Realizes (.rule .regex) regex? QueryTree.value? where
  found := by
    intro cs v rest h
    unfold regex? at h
    split at h
    · rename_i cs
      obtain ⟨⟨text, after⟩, hb, he⟩ := Option.map_eq_some_iff.mp h
      have hopen : Parses rules (sign '/') ('/' :: cs) (some ([], cs)) := .char rfl
      have hclose : Parses rules (sign '/') ('/' :: after) (some ([], after)) := .char rfl
      have hbody := parses_body (r := .regexBody) rfl (by decide) hb
      simp only at he
      split at he
      · rename_i after
        cases he
        have hmark := parses_unanchored rest
        refine ⟨_, ?_, .rule (.seq hopen (.seq hbody (.seq hclose hmark)))⟩
        simp [QueryTree.value?]
      · rename_i hno
        cases he
        have hmark := parses_anchored hno
        refine ⟨_, ?_, .rule (.seq hopen (.seq hbody (.seq hclose hmark)))⟩
        simp [QueryTree.value?]
    · cases h
  missing := by
    intro cs h
    apply Parses.ruleFails
    cases cs with
    | nil => exact .seqFirst .charEnd
    | cons c cs =>
      by_cases hc : c = '/'
      · subst c
        have hb : Quoted.body? '/' cs = none := Option.map_eq_none_iff.mp h
        obtain ⟨ts, hbody⟩ := parses_body_open (r := .regexBody) rfl (by decide) hb
        exact .seqSecond (.char rfl) (.seqSecond hbody (.seqFirst .charEnd))
      · exact .seqFirst (.charOther (by simp [hc]))

theorem realizes_quoted : Realizes (.rule .quoted) quoted? QueryTree.value? where
  found := by
    intro cs v rest h
    unfold quoted? at h
    split at h
    · rename_i cs
      obtain ⟨⟨text, after⟩, hb, he⟩ := Option.map_eq_some_iff.mp h
      cases he
      have hbody := parses_body (r := .quotedBody) rfl (by decide) hb
      refine ⟨_, ?_, .rule (.seq (.char rfl) (.seq hbody (.char rfl)))⟩
      simp [QueryTree.value?]
    · cases h
  missing := by
    intro cs h
    apply Parses.ruleFails
    cases cs with
    | nil => exact .seqFirst .charEnd
    | cons c cs =>
      by_cases hc : c = '"'
      · subst c
        have hb : Quoted.body? '"' cs = none := Option.map_eq_none_iff.mp h
        obtain ⟨ts, hbody⟩ := parses_body_open (r := .quotedBody) rfl (by decide) hb
        exact .seqSecond (.char rfl) (.seqSecond hbody .charEnd)
      · exact .seqFirst (.charOther (by simp [hc]))

theorem realizes_bare : Realizes (.rule .bare) bare? QueryTree.value? := by
  apply (realizes_runToken takesRun_bare Value.text fun _ => rfl).congr
  intro cs
  cases cs with
  | nil => rfl
  | cons c cs => cases hc : isBareStart c <;> simp [run?, bare?, hc]

theorem realizes_catBare : Realizes (.rule .catBare) category? QueryTree.value? where
  found := by
    intro cs v rest h
    unfold category? at h
    split at h
    · cases h
    · rename_i text after hne he
      cases h
      have hnil : (Token.bareCategory false cs).1 ≠ [] := by
        rw [he]
        exact hne
      exact ⟨_, rfl, computes_catBare.parses (by rw [if_neg hnil, he])⟩
  missing := by
    intro cs h
    unfold category? at h
    split at h
    · rename_i he
      exact computes_catBare.parses (by rw [he]; rfl)
    · cases h

theorem realizes_var : Realizes (.rule .var) var? QueryTree.name? := by
  apply (realizes_runToken takesRun_var id fun _ => rfl).congr
  intro cs
  cases cs with
  | nil => rfl
  | cons c cs => cases hc : isVarStart c <;> simp [run?, var?, hc]

theorem realizes_word : Realizes (.rule .lexAnchor)
    (fun cs => (afterMark '^' (fun cs => (regex? cs).or ((quoted? cs).or (bare? cs))) cs).map
      fun x => (.word x.1, x.2)) QueryTree.base? := by
  have hvalue := realizes_regex.choice (realizes_quoted.choice realizes_bare)
  apply Realizes.marked rfl hvalue Base.word
  intro text t v hv
  simp [QueryTree.base?, hv]

theorem realizes_category : Realizes (.rule .catAnchor)
    (fun cs => (afterMark '@' (fun cs => (regex? cs).or ((quoted? cs).or (category? cs))) cs).map
      fun x => (.category x.1, x.2)) QueryTree.base? := by
  have hvalue := realizes_regex.choice (realizes_quoted.choice realizes_catBare)
  apply Realizes.marked rfl hvalue Base.category
  intro text t v hv
  simp [QueryTree.base?, hv]

theorem realizes_sameAs : Realizes (.rule .sameAs)
    (fun cs => (afterMark '=' var? cs).map fun x => (.sameAs x.1, x.2)) QueryTree.base? := by
  apply Realizes.marked rfl realizes_var Base.sameAs
  intro text t v hv
  simp [QueryTree.base?, hv]

theorem realizes_differentFrom : Realizes (.rule .differentFrom)
    (fun cs => (afterMark '~' var? cs).map fun x => (.differentFrom x.1, x.2))
    QueryTree.base? := by
  apply Realizes.marked rfl realizes_var Base.differentFrom
  intro text t v hv
  simp [QueryTree.base?, hv]

theorem realizes_captured : Realizes (.rule .capture) (afterMark '=' var?) QueryTree.captured? := by
  have hcaptured : ∀ text t v, QueryTree.name? t = some v →
      QueryTree.captured? (.node .capture text [t]) = some (id v) := by
    intro text t v hv
    simp [QueryTree.captured?, hv]
  apply (Realizes.marked rfl realizes_var id hcaptured).congr
  intro cs
  cases afterMark '=' var? cs <;> rfl

theorem realizes_wildcard : Realizes (.rule .wildcard)
    (fun cs => (charRest? (· == '*') cs).map fun rest => (.any, rest)) QueryTree.base? where
  found := by
    intro cs b rest h
    obtain ⟨after, hafter, he⟩ := Option.map_eq_some_iff.mp h
    cases he
    have hsign : Parses rules (sign '*') cs (some ([], rest)) :=
      (computes_sign '*').parses (by rw [readChar_eq, hafter]; rfl)
    exact ⟨_, rfl, .rule hsign⟩
  missing := by
    intro cs h
    have hsign : Parses rules (sign '*') cs none :=
      (computes_sign '*').parses (by rw [readChar_eq, Option.map_eq_none_iff.mp h]; rfl)
    exact .ruleFails hsign

/-- What kind of anchor begins is told by its first character. -/
theorem base?_eq_or (cs : List Char) : base? cs =
    ((charRest? (· == '*') cs).map fun rest => (Base.any, rest)).or
      (((regex? cs).map fun x => (Base.label x.1, x.2)).or
      (((afterMark '^' (fun cs => (regex? cs).or ((quoted? cs).or (bare? cs))) cs).map
        fun x => (Base.word x.1, x.2)).or
      (((afterMark '@' (fun cs => (regex? cs).or ((quoted? cs).or (category? cs))) cs).map
        fun x => (Base.category x.1, x.2)).or
      (((afterMark '=' var? cs).map fun x => (Base.sameAs x.1, x.2)).or
      (((afterMark '~' var? cs).map fun x => (Base.differentFrom x.1, x.2)).or
      (((quoted? cs).map fun x => (Base.label x.1, x.2)).or
        ((bare? cs).map fun x => (Base.label x.1, x.2)))))))) := by
  cases cs with
  | nil => rfl
  | cons c cs =>
    cases hm : isMarker c with
    | false =>
      have hne : c ≠ '*' ∧ c ≠ '/' ∧ c ≠ '^' ∧ c ≠ '@' ∧ c ≠ '=' ∧ c ≠ '~' ∧ c ≠ '{' := by
        simpa [isMarker] using hm
      have hregex : regex? (c :: cs) = none := by
        unfold regex?
        split
        · rename_i he
          cases he
          exact absurd rfl hne.2.1
        · rfl
      rw [base?_of_unmarked hm, hregex]
      simp [charRest?, afterMark, hne, Option.map_or]
    | true =>
      have hmarks : c = '*' ∨ c = '/' ∨ c = '^' ∨ c = '@' ∨ c = '=' ∨ c = '~' ∨ c = '{' := by
        simpa [isMarker] using hm
      have hquoted : quoted? (c :: cs) = none := by
        apply quoted?_eq_none
        intro hc
        subst c
        simp at hmarks
      have hbare : bare? (c :: cs) = none := by
        cases hs : isBareStart c with
        | false => simp [bare?, hs]
        | true => simp [(isMarker_of_isBareStart hs).1] at hm
      rw [hquoted, hbare]
      rcases hmarks with hc | hc | hc | hc | hc | hc | hc
      all_goals
        subst c
        simp [base?, charRest?, afterMark, regex?, hquoted, hbare]

theorem base?_of_value? {t : QueryTree} {v : Value} (h : t.value? = some v) :
    t.base? = some (.label v) := by
  unfold QueryTree.value? at h
  split at h
  all_goals
    cases h
  all_goals
    simp [QueryTree.base?, QueryTree.value?]

theorem realizes_base : Realizes (.rule .base) base? QueryTree.base? := by
  have hlabel : ∀ t v, QueryTree.value? t = some v → t.base? = some (.label v) :=
    fun t v => base?_of_value?
  have htext := (realizes_quoted.map Base.label hlabel).choice (realizes_bare.map Base.label hlabel)
  have hmarked := realizes_word.choice (realizes_category.choice
    (realizes_sameAs.choice (realizes_differentFrom.choice htext)))
  have hall := realizes_wildcard.choice ((realizes_regex.map Base.label hlabel).choice hmarked)
  exact (Realizes.silent rfl hall).congr fun cs => (base?_eq_or cs).symm

/-- A capture, or nothing. -/
theorem parses_capture (cs : List Char) : ∃ ts, QueryTree.capture? ts = some (Token.capture cs).1 ∧
    Parses rules (opt (.rule .capture)) cs (some (ts, (Token.capture cs).2)) := by
  have hcapture : Token.capture cs =
      ((afterMark '=' var? cs).map fun x => (some x.1, x.2)).getD (none, cs) := by
    cases cs with
    | nil => rfl
    | cons c cs =>
      by_cases hc : c = '='
      · subst c
        cases hvar : var? cs <;> simp [Token.capture, afterMark, hvar]
      · rw [afterMark, if_neg hc]
        apply capture_of_head
        intro x hx
        cases hx
        exact hc
  rw [hcapture]
  cases h : afterMark '=' var? cs with
  | none => exact ⟨[], rfl, .choiceSecond (realizes_captured.missing h) .empty⟩
  | some x =>
    obtain ⟨t, ht, hp⟩ := realizes_captured.found h
    refine ⟨[t], ?_, .choiceFirst hp⟩
    simp [QueryTree.capture?, ht]

/-- A base and, directly after it, its capture. -/
def literal? (cs : List Char) : Option (Literal × List Char) :=
  (base? cs).map fun x => (⟨x.1, (Token.capture x.2).1⟩, (Token.capture x.2).2)

theorem anchor?_eq (cs : List Char) :
    Token.anchor? cs = (literal? cs).map fun x => (.anchor x.1, x.2) := by
  rw [Token.anchor?, literal?, Option.map_map]
  rfl

theorem realizes_anchor : Realizes (.rule .anchor) literal? QueryTree.literal? where
  found := by
    intro cs l rest h
    obtain ⟨x, hx, he⟩ := Option.map_eq_some_iff.mp h
    cases he
    obtain ⟨t, ht, hbase⟩ := realizes_base.found hx
    obtain ⟨ts, hts, hcapture⟩ := parses_capture x.2
    refine ⟨_, ?_, .rule (.seq hbase hcapture)⟩
    simp [QueryTree.literal?, ht, hts]
  missing := by
    intro cs h
    exact .ruleFails (.seqFirst (realizes_base.missing (Option.map_eq_none_iff.mp h)))

def QueryTree.symbol? : QueryTree → Option String
  | .node .operator text [] => some text
  | _ => none

theorem realizes_operator : Realizes (.rule .operator) (run? isOperatorChar isOperatorChar)
    QueryTree.symbol? := by
  apply (realizes_runToken takesRun_operator id fun _ => rfl).congr
  intro cs
  cases run? isOperatorChar isOperatorChar cs <;> rfl

end TreeQuery.Query
