import Mathlib.Data.List.Chain
import Mathlib.Data.List.TakeWhile
import TreeQuery.Proofs.Bracket.Tokens
import TreeQuery.Proofs.Stream.Chunks
import TreeQuery.Proofs.Text.Runs

namespace TreeQuery.Stream

open Text

/-- The text closes the brackets that it opens, and no others. -/
structure Balanced (cs : List Char) : Prop where
  depth_append : ∀ rest, depth (cs ++ rest) = depth rest
  depth_nonneg : ∀ {start}, start <+: cs → 0 ≤ depth start

/-- The text can stand between brackets, and these belong together. -/
structure Fills (cs : List Char) : Prop where
  depth_closed : ∀ rest, depth ('(' :: (cs ++ ')' :: rest)) = depth rest
  depth_pos : ∀ {start}, start <+: cs → 1 ≤ depth ('(' :: start)

theorem depth_nil : depth [] = 0 := by
  simp [depth, withoutHeaders]

theorem depth_open {cs : List Char} (h : cs.head? ≠ some '<') :
    depth ('(' :: cs) = 1 + depth cs :=
  depth_cons fun hc => h hc.2

theorem depth_close (cs : List Char) : depth (')' :: cs) = -1 + depth cs :=
  depth_cons fun hc => absurd hc.1 (by decide)

theorem depth_parenless {cs : List Char} (ho : '(' ∉ cs) (hc : ')' ∉ cs) (rest : List Char) :
    depth (cs ++ rest) = depth rest := by
  induction cs with
  | nil => rfl
  | cons c cs ih =>
    obtain ⟨ho, hos⟩ := not_or.mp (mt List.mem_cons.mpr ho)
    obtain ⟨hc, hcs⟩ := not_or.mp (mt List.mem_cons.mpr hc)
    have hlevel : level c = 0 := by rw [level, if_neg (Ne.symm ho), if_neg (Ne.symm hc)]
    rw [List.cons_append, depth_cons fun h => ho h.1.symm, hlevel, ih hos hcs, Int.zero_add]

namespace Balanced

variable {cs ds : List Char}

theorem of_parenless (ho : '(' ∉ cs) (hc : ')' ∉ cs) : Balanced cs where
  depth_append := depth_parenless ho hc
  depth_nonneg := by
    intro start hp
    have hzero := depth_parenless (fun hm => ho (hp.subset hm)) (fun hm => hc (hp.subset hm)) []
    rw [List.append_nil, depth_nil] at hzero
    exact Int.le_of_eq hzero.symm

theorem of_blanks (h : Blanks cs) : Balanced cs :=
  .of_parenless (fun hm => absurd (h _ hm) (by decide)) (fun hm => absurd (h _ hm) (by decide))

theorem append (hc : Balanced cs) (hd : Balanced ds) : Balanced (cs ++ ds) where
  depth_append rest := by rw [List.append_assoc, hc.depth_append, hd.depth_append]
  depth_nonneg := by
    rintro start ⟨rest, he⟩
    rcases List.append_eq_append_iff.mp he with ⟨more, rfl, _⟩ | ⟨more, rfl, rfl⟩
    · exact hc.depth_nonneg (List.prefix_append start more)
    · rw [hc.depth_append]
      exact hd.depth_nonneg (List.prefix_append more rest)

end Balanced

namespace Fills

variable {cs : List Char}

theorem of_balanced (h : Balanced cs) (hhead : cs.head? ≠ some '<') : Fills cs where
  depth_closed rest := by
    have hopen : (cs ++ ')' :: rest).head? ≠ some '<' := by
      cases cs with
      | nil => simp
      | cons c cs => exact hhead
    rw [depth_open hopen, h.depth_append, depth_close]
    omega
  depth_pos := by
    intro start hp
    have hopen : start.head? ≠ some '<' := by
      cases start with
      | nil => simp
      | cons c start =>
        obtain ⟨rest, rfl⟩ := hp
        exact hhead
    rw [depth_open hopen]
    have := h.depth_nonneg hp
    omega

theorem prefix_header {start body : List Char} (h : start <+: body ++ '>' :: cs) :
    start <+: body ∨ ∃ more, start = body ++ '>' :: more ∧ more <+: cs := by
  obtain ⟨rest, he⟩ := h
  rcases List.append_eq_append_iff.mp he with ⟨more, rfl, _⟩ | ⟨more, rfl, hmore⟩
  · exact .inl (List.prefix_append start more)
  · cases more with
    | nil => exact .inl (by simp)
    | cons c more =>
      obtain ⟨rfl, rfl⟩ := List.cons.inj hmore
      exact .inr ⟨more, rfl, List.prefix_append more rest⟩

/-- Within a header brackets do not count. -/
theorem header {body : List Char} (hbody : '>' ∉ body) (h : Balanced cs) :
    Fills ('<' :: (body ++ '>' :: cs)) := by
  have hin : ∀ c ∈ '<' :: body, (c != '>') = true := by
    intro c hc
    rw [bne_iff_ne]
    rintro rfl
    rcases List.mem_cons.mp hc with he | hm
    · cases he
    · exact hbody hm
  have hdrop (rest : List Char) :
      (('<' :: (body ++ '>' :: rest)).dropWhile (· != '>')).tail = rest := by
    have hend : ∀ c ∈ ('>' :: rest).head?, (c != '>') = false := by
      intro c hc
      cases hc
      rfl
    have hrun := dropWhile_run hin hend
    rw [List.cons_append] at hrun
    rw [hrun, List.tail_cons]
  have hopen (start : List Char) : depth ('(' :: '<' :: start) =
      1 + depth (('<' :: start).dropWhile (· != '>')).tail := depth_header rfl
  refine ⟨fun rest => ?_, fun {start} hp => ?_⟩
  · rw [List.cons_append, List.append_assoc, List.cons_append, hopen, hdrop, h.depth_append,
      depth_close]
    omega
  · cases start with
    | nil =>
      rw [depth_open (by simp), depth_nil]
      omega
    | cons c start =>
      obtain ⟨rfl, hstart⟩ := List.cons_prefix_cons.mp hp
      rw [hopen]
      rcases prefix_header hstart with hshort | ⟨more, rfl, hmore⟩
      · have hnil : ('<' :: start).dropWhile (· != '>') = [] :=
          List.dropWhile_eq_nil_iff.mpr fun c hc =>
            hin c (List.cons_subset_cons '<' hshort.subset hc)
        rw [hnil, List.tail_nil, depth_nil]
        omega
      · have := h.depth_nonneg hmore
        rw [hdrop]
        omega

theorem depth_whole (h : Fills cs) : depth ('(' :: (cs ++ [')'])) = 0 := by
  rw [h.depth_closed, depth_nil]

theorem balanced (h : Fills cs) : Balanced ('(' :: (cs ++ [')'])) where
  depth_append rest := by
    rw [List.cons_append, List.append_assoc]
    exact h.depth_closed rest
  depth_nonneg := by
    intro start hp
    cases start with
    | nil => exact Int.le_of_eq depth_nil.symm
    | cons c start =>
      obtain ⟨rfl, hstart⟩ := List.cons_prefix_cons.mp hp
      rcases List.prefix_concat_iff.mp hstart with rfl | hstart
      · exact Int.le_of_eq h.depth_whole.symm
      · exact Int.le_trans (by decide) (h.depth_pos hstart)

theorem isChunk (h : Fills cs) : IsChunk ('(' :: (cs ++ [')'])) := by
  refine ⟨rfl, h.depth_whole, fun start hp hnil hne hzero => ?_⟩
  cases start with
  | nil => exact hnil rfl
  | cons c start =>
    obtain ⟨rfl, hstart⟩ := List.cons_prefix_cons.mp hp
    rcases List.prefix_concat_iff.mp hstart with rfl | hstart
    · exact hne rfl
    · have := h.depth_pos hstart
      omega

/-- A header apart from its bracket is text like any other. -/
theorem of_header {gap body : List Char} (hg : Blanks gap) (hbody : '>' ∉ body)
    (happly : gap = [] ∨ '(' ∉ body ∧ ')' ∉ body) (h : Balanced cs) :
    Fills (gap ++ '<' :: (body ++ '>' :: cs)) := by
  cases gap with
  | nil => exact header hbody h
  | cons c gap =>
    obtain ⟨ho, hc⟩ := happly.resolve_left (List.cons_ne_nil c gap)
    have hheader : Balanced ('<' :: (body ++ ['>'])) :=
      .of_parenless (by simp [ho]) (by simp [hc])
    have hall := (Balanced.of_blanks hg).append (hheader.append h)
    refine .of_balanced ?_ fun hhead => ?_
    · simpa using hall
    · obtain ⟨rfl⟩ := hhead
      exact absurd (hg '<' List.mem_cons_self) (by decide)

end Fills

/-- A header with parentheses follows its bracket directly. -/
def HeadersAttached (cs : List Char) : Prop :=
  ∀ gap body, '(' :: (gap ++ '<' :: (body ++ ['>'])) <:+: cs → Blanks gap → '>' ∉ body →
    gap = [] ∨ '(' ∉ body ∧ ')' ∉ body

theorem HeadersAttached.of_append {cs ds : List Char} (h : HeadersAttached (cs ++ ds)) :
    HeadersAttached ds :=
  fun gap body hin => h gap body (hin.trans (List.suffix_append cs ds).isInfix)

/-- Where no bracket has a blank after it, every header follows its bracket. -/
theorem HeadersAttached.of_tight {cs : List Char}
    (h : cs.IsChain fun c d => c = '(' → isBlank d = false) : HeadersAttached cs := by
  intro gap body hin hgap _
  cases gap with
  | nil => exact .inl rfl
  | cons c gap =>
    have hchain := List.IsChain.infix h hin
    have hblank : isBlank c = true := hgap c List.mem_cons_self
    rw [(List.isChain_cons_cons.mp hchain).1 rfl] at hblank
    cases hblank

/-- Wherever the lexemes are written, their text is balanced. -/
def SpellsBalanced (ms : List Lexeme) : Prop :=
  ∀ ⦃ls cs⦄, Spaced (ms ++ ls) cs → HeadersAttached cs →
    ∃ inside rest, cs = inside ++ rest ∧ Balanced inside ∧ Spaced ls rest

/-- The text begins with parentheses that belong together, and then come the lexemes. -/
def OpensBefore (ls : List Lexeme) (cs : List Char) : Prop :=
  ∃ gap inside rest, cs = gap ++ '(' :: (inside ++ ')' :: rest) ∧ Blanks gap ∧ Fills inside ∧
    Spaced ls rest

/-- Wherever the bracket is written, its parentheses belong together. -/
def Enclosed (b : Bracket) : Prop :=
  ∀ ⦃ls cs⦄, Spaced (b.lexemes ++ ls) cs → HeadersAttached cs → OpensBefore ls cs

theorem spellsBalanced_nil : SpellsBalanced [] :=
  fun _ _ hs _ => ⟨[], _, rfl, .of_blanks blanks_nil, hs⟩

theorem SpellsBalanced.append {ms ns : List Lexeme} (hm : SpellsBalanced ms)
    (hn : SpellsBalanced ns) : SpellsBalanced (ms ++ ns) := by
  intro ls cs hs ha
  rw [List.append_assoc] at hs
  obtain ⟨first, after, rfl, hfirst, hafter⟩ := hm hs ha
  obtain ⟨inside, rest, rfl, hinside, hrest⟩ := hn hafter ha.of_append
  exact ⟨first ++ inside, rest, (List.append_assoc ..).symm, hfirst.append hinside, hrest⟩

theorem spellsBalanced_word {s : String} (hw : Bracket.IsWord s) : SpellsBalanced [.text s] := by
  intro ls cs hs _
  obtain ⟨gap, rest, hg, rfl, hrest, _⟩ := Spaced.text_iff.mp hs
  have hword : Balanced s.toList :=
    .of_parenless (fun hm => (hw.2 _ hm).2.1 rfl) (fun hm => (hw.2 _ hm).2.2 rfl)
  exact ⟨gap ++ s.toList, rest, (List.append_assoc ..).symm,
    (Balanced.of_blanks hg).append hword, hrest⟩

theorem Enclosed.spellsBalanced {b : Bracket} (h : Enclosed b) : SpellsBalanced b.lexemes := by
  intro ls cs hs ha
  obtain ⟨gap, inside, rest, rfl, hg, hinside, hrest⟩ := h hs ha
  exact ⟨gap ++ '(' :: (inside ++ [')']), rest, by simp,
    (Balanced.of_blanks hg).append hinside.balanced, hrest⟩

theorem spellsBalanced_all {bs : List Bracket} (h : ∀ b ∈ bs, Enclosed b) :
    SpellsBalanced (Bracket.lexemesAll bs) := by
  induction bs with
  | nil => exact spellsBalanced_nil
  | cons b bs ih =>
    obtain ⟨hb, hbs⟩ := List.forall_mem_cons.mp h
    exact hb.spellsBalanced.append (ih hbs)

/-- Where no header comes first, the rest of the lexemes in a bracket need only be balanced. -/
theorem opensBefore_plain {ms ls : List Lexeme} {cs : List Char} (hms : SpellsBalanced ms)
    (hs : Spaced (.sign "(" :: (ms ++ .sign ")" :: ls)) cs) (ha : HeadersAttached cs)
    (hfirst : ∀ rest, Spaced (ms ++ .sign ")" :: ls) rest → rest.head? ≠ some '<') :
    OpensBefore ls cs := by
  obtain ⟨gap, after, hg, rfl, hafter⟩ := Spaced.sign_iff.mp hs
  obtain ⟨inside, closing, rfl, hinside, hclosing⟩ := hms hafter ha.of_append.of_append
  obtain ⟨gap', rest, hg', rfl, hrest⟩ := Spaced.sign_iff.mp hclosing
  refine ⟨gap, inside ++ gap', rest, by simp, hg, ?_, hrest⟩
  refine .of_balanced (hinside.append (.of_blanks hg')) fun hhead => hfirst _ hafter ?_
  rw [← List.append_assoc, List.head?_append, hhead]
  rfl

theorem exists_header {fields : List String} (hf : ∀ f ∈ fields, Bracket.IsField f) {kind : Char}
    {ls : List Lexeme} {cs : List Char}
    (h : Spaced (.sign (.ofList ['<', kind]) :: (fields.map .text ++ .sign ">" :: ls)) cs) :
    ∃ gap body rest, cs = gap ++ '<' :: kind :: (body ++ '>' :: rest) ∧ Blanks gap ∧ '>' ∉ body ∧
      Spaced ls rest := by
  obtain ⟨gap, after, hg, rfl, hafter⟩ := Spaced.sign_iff.mp h
  obtain ⟨body, rest, rfl, hbody, _, hrest⟩ := hafter.exists_body hf
  exact ⟨gap, body, rest, by simp, hg, hbody, hrest⟩

/-- Where a header comes first, the rest of the lexemes in a bracket need only be balanced. -/
theorem opensBefore_header {fields : List String} (hf : ∀ f ∈ fields, Bracket.IsField f)
    {kind : Char} (hkind : kind ≠ '>') {ms ls : List Lexeme} {cs : List Char}
    (hms : SpellsBalanced ms)
    (hs : Spaced (.sign "(" :: .sign (.ofList ['<', kind]) ::
      (fields.map .text ++ .sign ">" :: (ms ++ .sign ")" :: ls))) cs) (ha : HeadersAttached cs) :
    OpensBefore ls cs := by
  obtain ⟨gap, header, hg, rfl, hheader⟩ := Spaced.sign_iff.mp hs
  obtain ⟨apart, body, after, rfl, hapart, hbody, hafter⟩ := exists_header hf hheader
  have hbody' : '>' ∉ kind :: body := by simp [hbody, Ne.symm hkind]
  have happly : apart = [] ∨ '(' ∉ kind :: body ∧ ')' ∉ kind :: body :=
    ha apart (kind :: body) ⟨gap, after, by simp⟩ hapart hbody'
  have hsplit : gap ++ ("(".toList ++ (apart ++ '<' :: kind :: (body ++ '>' :: after))) =
      (gap ++ '(' :: (apart ++ '<' :: kind :: (body ++ ['>']))) ++ after := by simp
  rw [hsplit] at ha
  obtain ⟨inside, closing, rfl, hinside, hclosing⟩ := hms hafter ha.of_append
  obtain ⟨gap', rest, hg', rfl, hrest⟩ := Spaced.sign_iff.mp hclosing
  exact ⟨gap, apart ++ '<' :: (kind :: body ++ '>' :: (inside ++ gap')), rest, by simp, hg,
    .of_header hapart hbody' happly (hinside.append (.of_blanks hg')), hrest⟩

/-- What begins with a label or with an opening bracket does not begin with a header. -/
theorem head_ne_of_blanks {gap w rest : List Char} (hg : Blanks gap) (hne : w ≠ [])
    (hw : w.head? ≠ some '<') : (gap ++ (w ++ rest)).head? ≠ some '<' := by
  cases gap with
  | nil =>
    obtain ⟨c, w, rfl⟩ := List.exists_cons_of_ne_nil hne
    exact hw
  | cons c gap =>
    intro hhead
    cases hhead
    exact absurd (hg '<' List.mem_cons_self) (by decide)

/-- Counting finds the bracket that closes a bracket. -/
theorem enclosed_of_proper {b : Bracket} (hb : b.Proper) : Enclosed b := by
  induction hb with
  | @leaf label word hlabel hword =>
    intro ls cs hs ha
    have hms : SpellsBalanced [.text label, .text word] :=
      (spellsBalanced_word hlabel.1).append (spellsBalanced_word hword)
    refine opensBefore_plain hms hs ha fun rest hrest => ?_
    obtain ⟨gap, rest, hg, rfl, _⟩ := Spaced.text_iff.mp hrest
    exact head_ne_of_blanks hg hlabel.1.1 hlabel.2
  | @phrase label bs hlabel hne _ ih =>
    intro ls cs hs ha
    have hall : SpellsBalanced (Bracket.lexemesAll bs) := spellsBalanced_all ih
    rw [Bracket.lexemes, List.append_assoc, List.cons_append, List.cons_append, List.append_assoc]
      at hs
    cases label with
    | none =>
      refine opensBefore_plain hall hs ha fun rest hrest => ?_
      cases bs with
      | nil => exact absurd rfl hne
      | cons b bs =>
        obtain ⟨more, hmore⟩ := b.exists_lexemes
        rw [Bracket.lexemesAll, hmore] at hrest
        obtain ⟨gap, rest, hg, rfl, _⟩ := Spaced.sign_iff.mp hrest
        exact head_ne_of_blanks hg (by decide) (by decide)
    | some label =>
      obtain ⟨hword, hfirst⟩ := hlabel label rfl
      refine opensBefore_plain ((spellsBalanced_word hword).append hall) hs ha fun rest hrest => ?_
      obtain ⟨gap, rest, hg, rfl, _⟩ := Spaced.text_iff.mp hrest
      exact head_ne_of_blanks hg hword.1 hfirst
  | @lexical category pos formerPos word predicate hcategory hpos hformer hword hpredicate =>
    intro ls cs hs ha
    have hf : ∀ f ∈ category :: pos :: formerPos :: word :: predicate.toList,
        Bracket.IsField f := by
      simp only [List.forall_mem_cons, Option.mem_toList]
      exact ⟨hcategory, hpos, hformer, hword, hpredicate⟩
    rw [Bracket.lexemes, List.append_assoc] at hs
    exact opensBefore_header hf (by decide) spellsBalanced_nil hs ha
  | @derived category head arity bs hcategory hhead harity _ _ ih =>
    intro ls cs hs ha
    have hf : ∀ f ∈ [category, head, arity], Bracket.IsField f := by
      simp only [List.forall_mem_cons]
      exact ⟨hcategory, Bracket.Token.isField_of_isNumeral hhead,
        Bracket.Token.isField_of_isNumeral harity, fun _ hf => absurd hf List.not_mem_nil⟩
    rw [Bracket.lexemes, List.append_assoc] at hs
    exact opensBefore_header hf (by decide) (spellsBalanced_all ih) hs ha

end TreeQuery.Stream
