import Mathlib.Data.List.Forall2
import TreeQuery.Proofs.Bracket.Grammar
import TreeQuery.Proofs.Bracket.Notation

namespace TreeQuery

open Text

/-- A sign comes next, or a text that could go on a run. -/
def Continues (q : Char → Bool) : List Lexeme → Prop
  | .text s :: _ => ∃ c cs, s.toList = c :: cs ∧ q c = true
  | .sign _ :: _ => True
  | [] => False

/-- The lexemes can be spelled in front of whatever the rest is a spelling of. -/
def SpacedBefore (ls : List Lexeme) (cs rest : List Char) : Prop :=
  ∀ more, Spaced more rest → Spaced (ls ++ more) cs

section SpacedBefore

variable {ls : List Lexeme} {cs mid rest : List Char}

theorem Spaced.of_skipBlanks (h : Spaced ls (skipBlanks cs)) : Spaced ls cs := by
  obtain ⟨gap, hg, he, _⟩ := exists_gap cs
  rw [he]
  exact h.blanks hg

theorem spacedBefore_nil : SpacedBefore [] cs cs :=
  fun _ h => h

theorem SpacedBefore.skipBlanks (h : SpacedBefore ls (skipBlanks cs) rest) :
    SpacedBefore ls cs rest :=
  fun more hmore => (h more hmore).of_skipBlanks

theorem SpacedBefore.append {ms : List Lexeme} (h : SpacedBefore ls cs mid)
    (h' : SpacedBefore ms mid rest) :
    SpacedBefore (ls ++ ms) cs rest := by
  intro more hmore
  rw [List.append_assoc]
  exact h _ (h' more hmore)

theorem SpacedBefore.sign (s : String) (hcs : Text.skipBlanks cs = s.toList ++ mid)
    (h : SpacedBefore ls mid rest) : SpacedBefore (.sign s :: ls) cs rest := by
  apply SpacedBefore.skipBlanks
  rw [hcs]
  exact fun more hmore => .sign blanks_nil (h more hmore)

/-- A run that was taken to its end is followed by a blank if by more text. -/
theorem SpacedBefore.run {q : Char → Bool} (s : String) (hcs : Text.skipBlanks cs = s.toList ++ mid)
    (hmid : ∀ c ∈ mid.head?, q c = false) (hls : Continues q ls) (h : SpacedBefore ls mid rest) :
    SpacedBefore (.text s :: ls) cs rest := by
  apply SpacedBefore.skipBlanks
  rw [hcs]
  intro more hmore
  have hspaced := h more hmore
  refine .text blanks_nil hspaced fun ⟨t, after, hnext⟩ => ?_
  cases ls with
  | nil => cases hls
  | cons l ls =>
    cases hnext
    obtain ⟨c, cs, ht, hc⟩ := hls
    obtain ⟨gap, left, hg, hm, _⟩ := Spaced.text_iff.mp hspaced
    cases gap with
    | cons d gap => exact ⟨d, _, hm, hg d List.mem_cons_self⟩
    | nil =>
      rw [ht] at hm
      subst mid
      have hno : q c = false := hmid c rfl
      rw [hc] at hno
      cases hno

end SpacedBefore

namespace Bracket

open Grammar
open Grammar.Expr (sign opt loosely manyLoosely)
open Token (isWordChar)

variable {cs rest : List Char} {ts : List BracketTree} {e : Expr Rule}

def isFieldChar (c : Char) : Bool :=
  !isBlank c && c != '>'

theorem takesRun_field : TakesRun rules .field isFieldChar isFieldChar := by
  have hclass := computes_other (computes_either (computes_blank (g := rules)) (computes_sign '>'))
  have hchar : (fun c => !(isBlank c || c == '>')) = isFieldChar := by
    funext c
    simp [isFieldChar, bne]
  rw [hchar] at hclass
  exact takesRun rfl hclass hclass

theorem takesRun_index : TakesRun rules .index Char.isDigit Char.isDigit :=
  takesRun rfl (computes_char _) (computes_char _)

theorem computes_wordChar : Computes rules Rule.wordChar (readChar isWordChar) := by
  have hblank := computes_either (computes_blank (g := rules)) (computes_sign '(')
  have hclass := computes_other (computes_either hblank (computes_sign ')'))
  have hchar : (fun c => !((isBlank c || c == '(') || c == ')')) = isWordChar := by
    funext c
    simp [isWordChar, bne]
  rw [hchar] at hclass
  exact hclass

theorem takesRun_word : TakesRun rules .word isWordChar isWordChar :=
  takesRun rfl computes_wordChar computes_wordChar

def isLabelStart (c : Char) : Bool :=
  c != '<' && isWordChar c

theorem takesRun_label : TakesRun rules .label isLabelStart isWordChar := by
  apply takesRun_of_body rfl
  have hbody := computes_runBody computes_wordChar computes_wordChar
  apply ((computes_sign '<').not.seq hbody).congr
  intro cs
  cases cs with
  | nil => rfl
  | cons c cs =>
    by_cases hc : c = '<'
    · subst c
      rfl
    · simp [readSeq, readNot, readChar, run?, isLabelStart, hc]

theorem isRun_field {s : String} : IsRun isFieldChar isFieldChar s ↔ IsField s := by
  simp [isRun_self, isFieldChar, IsField]

theorem isRun_word {s : String} : IsRun isWordChar isWordChar s ↔ IsWord s := by
  simp [isRun_self, isWordChar, IsWord, and_assoc]

theorem isRun_index {s : String} :
    IsRun Char.isDigit Char.isDigit s ↔ Numeral.isNumeral s.toList = true := by
  simp [isRun_self, Numeral.isNumeral]

theorem isRun_label {s : String} : IsRun isLabelStart isWordChar s ↔ IsLabel s := by
  rw [IsLabel, ← isRun_word, IsRun, IsRun]
  constructor
  · intro ⟨c, cs, hs, hc, hcs⟩
    obtain ⟨hne, hword⟩ := Bool.and_eq_true_iff.mp hc
    refine ⟨⟨c, cs, hs, hword, hcs⟩, ?_⟩
    rw [hs]
    simpa using hne
  · intro ⟨⟨c, cs, hs, hc, hcs⟩, hlabel⟩
    rw [hs] at hlabel
    refine ⟨c, cs, hs, Bool.and_eq_true_iff.mpr ⟨?_, hc⟩, hcs⟩
    simpa using hlabel

/-- A run may always go on with the first character of another. -/
theorem continues_run {p q : Char → Bool} {s : String} {ls : List Lexeme} (h : IsRun p q s)
    (hpq : ∀ c, p c = true → q c = true) : Continues q (.text s :: ls) := by
  obtain ⟨c, cs, hs, hc, _⟩ := h
  exact ⟨c, cs, hs, hpq c hc⟩

theorem parses_opening {kind : Char} :
    Parses rules (loosely (Rule.opening kind) e) cs (some (ts, rest)) ↔ ∃ inner,
      cs = '<' :: kind :: inner ∧ Parses rules e (skipBlanks inner) (some (ts, rest)) := by
  rw [Rule.opening, parses_loosely]
  constructor
  · intro ⟨us, inner, vs, hopen, he, ht⟩
    obtain ⟨ws, mid, xs, hangle, hkind, hus⟩ := parses_seq.mp hopen
    obtain ⟨hws, hcs⟩ := parses_sign.mp hangle
    obtain ⟨hxs, hmid⟩ := parses_sign.mp hkind
    subst ws xs us ts cs mid
    exact ⟨inner, rfl, he⟩
  · intro ⟨inner, hcs, he⟩
    subst cs
    have hopen : Parses rules (Rule.opening kind) ('<' :: kind :: inner) (some ([], inner)) :=
      .seq (parses_sign.mpr ⟨rfl, rfl⟩) (parses_sign.mpr ⟨rfl, rfl⟩)
    exact ⟨_, inner, ts, hopen, he, rfl⟩

/-- The parse tree stands for the bracket. A label alone stands for none. -/
structure StandsFor (t : BracketTree) (b : Bracket) : Prop where
  rule_ne : t.rule ≠ .label
  constituent_eq : BracketTree.constituent t = b.constituent

/-- The one tree that the expression gives at the text stands for a bracket that is written
there. -/
def Sound (e : Expr Rule) (cs : List Char) : Prop :=
  ∀ ts rest, Parses rules e cs (some (ts, rest)) →
    ∃ t b, ts = [t] ∧ StandsFor t b ∧ b.Proper ∧ SpacedBefore b.lexemes cs rest

theorem sound_leaf : Sound (.rule .leaf) cs := by
  intro ts rest hp
  obtain ⟨parts, hbody, ht⟩ := parses_rule.mp hp
  obtain ⟨inner, hcs, hinner⟩ := parses_signLoosely.mp hbody
  obtain ⟨label, mid, vs, hparts, hlabel, hlabelled, hmid, hmore⟩ :=
    takesRun_label.parses_loosely.mp hinner
  obtain ⟨word, left, ws, hvs, hword, hworded, hleft, hclose⟩ :=
    takesRun_word.parses_loosely.mp hmore
  obtain ⟨hws, hend⟩ := parses_sign.mp hclose
  subst cs parts vs ws
  refine ⟨_, leaf label word, ht, ⟨by simp [ParseTree.rule], rfl⟩,
    .leaf (isRun_label.mp hlabel) (isRun_word.mp hword), ?_⟩
  have hlast : SpacedBefore [.sign ")"] left rest := spacedBefore_nil.sign ")" hend
  have hafter : SpacedBefore [.text word, .sign ")"] mid rest :=
    hlast.run word hworded hleft trivial
  have hnext : Continues isWordChar [.text word, .sign ")"] := continues_run hword fun _ h => h
  exact (hafter.run label hlabelled hmid hnext).sign "(" rfl

/-- The end of a lexical header, with the predicate if there is one. -/
theorem spacedBefore_predicate (hp : Parses rules (loosely (opt (.rule .field))
      (loosely (sign '>') (sign ')'))) (skipBlanks cs) (some (ts, rest))) :
    ∃ predicate : Option String, (∀ p ∈ predicate, IsField p) ∧
      Continues isFieldChar (predicate.toList.map .text ++ [.sign ">", .sign ")"]) ∧
      SpacedBefore (predicate.toList.map .text ++ [.sign ">", .sign ")"]) cs rest := by
  obtain ⟨us, mid, vs, hpred, hclose, hts⟩ := parses_loosely.mp hp
  obtain ⟨inner, hangle, hlast⟩ := parses_signLoosely.mp hclose
  obtain ⟨hvs, hend⟩ := parses_sign.mp hlast
  have hsigns : SpacedBefore [.sign ">", .sign ")"] mid rest :=
    (spacedBefore_nil.sign ")" hend).sign ">" hangle
  rcases parses_choice.mp hpred with hsome | ⟨_, hnone⟩
  · obtain ⟨p, hus, hfield, hcs, hmid⟩ := takesRun_field.parses_iff.mp hsome
    refine ⟨some p, fun q hq => ?_, continues_run hfield fun _ h => h,
      hsigns.run p hcs hmid trivial⟩
    cases hq
    exact isRun_field.mp hfield
  · cases hnone
    exact ⟨none, fun q hq => (by cases hq), trivial, hsigns.skipBlanks⟩

theorem sound_lexical : Sound (.rule .lexical) cs := by
  intro ts rest hp
  obtain ⟨parts, hbody, ht⟩ := parses_rule.mp hp
  obtain ⟨inner, hcs, hinner⟩ := parses_signLoosely.mp hbody
  obtain ⟨header, hopen, hheader⟩ := parses_opening.mp hinner
  obtain ⟨category, mid₁, vs₁, hparts, hcategory, hread₁, hmid₁, hmore₁⟩ :=
    takesRun_field.parses_loosely.mp hheader
  obtain ⟨pos, mid₂, vs₂, hvs₁, hpos, hread₂, hmid₂, hmore₂⟩ :=
    takesRun_field.parses_loosely.mp hmore₁
  obtain ⟨formerPos, mid₃, vs₃, hvs₂, hformer, hread₃, hmid₃, hmore₃⟩ :=
    takesRun_field.parses_loosely.mp hmore₂
  obtain ⟨word, mid₄, vs₄, hvs₃, hword, hread₄, hmid₄, hmore₄⟩ :=
    takesRun_field.parses_loosely.mp hmore₃
  obtain ⟨predicate, hpredicate, hnext, hwrites⟩ := spacedBefore_predicate hmore₄
  subst cs parts vs₁ vs₂ vs₃
  refine ⟨_, lexical category pos formerPos word predicate, ht, ⟨by simp [ParseTree.rule], rfl⟩,
    .lexical (isRun_field.mp hcategory) (isRun_field.mp hpos) (isRun_field.mp hformer)
      (isRun_field.mp hword) hpredicate, ?_⟩
  have hgoes {s : String} {ls : List Lexeme} (hs : IsRun isFieldChar isFieldChar s) :
      Continues isFieldChar (.text s :: ls) := continues_run hs fun _ h => h
  -- from the end of the header to its beginning, each field in front of what is known of the next
  have h₄ := hwrites.run word hread₄ hmid₄ hnext
  have h₃ := h₄.run formerPos hread₃ hmid₃ (hgoes hword)
  have h₂ := h₃.run pos hread₂ hmid₂ (hgoes hformer)
  have h₁ := h₂.run category hread₁ hmid₁ (hgoes hpos)
  exact (h₁.sign "<L" hopen).sign "(" rfl

theorem length_of_skipBlanks {x : List Char} (h : skipBlanks cs = x ++ rest) :
    rest.length ≤ cs.length := by
  have hskip := length_skipBlanks_le cs
  rw [h, List.length_append] at hskip
  omega

/-- The trees stand for brackets that are written one after the other. -/
def SoundAll (cs : List Char) (ts : List BracketTree) (rest : List Char) : Prop :=
  ∃ bs : List Bracket, List.Forall₂ StandsFor ts bs ∧ (∀ b ∈ bs, b.Proper) ∧
    SpacedBefore (lexemesAll bs) cs rest

theorem SoundAll.cons {us : List BracketTree} {mid : List Char} (he : Sound e cs)
    (hp : Parses rules e cs (some (us, mid))) (h : SoundAll mid ts rest) :
    SoundAll cs (us ++ ts) rest := by
  obtain ⟨t, b, hus, hb, hproper, hwrites⟩ := he us mid hp
  obtain ⟨bs, hbs, hpropers, hall⟩ := h
  subst us
  exact ⟨b :: bs, .cons hb hbs, List.forall_mem_cons.mpr ⟨hproper, hpropers⟩, hwrites.append hall⟩

theorem SoundAll.skipBlanks (h : SoundAll (skipBlanks cs) ts rest) : SoundAll cs ts rest := by
  obtain ⟨bs, hbs, hpropers, hall⟩ := h
  exact ⟨bs, hbs, hpropers, hall.skipBlanks⟩

theorem soundAll_manyLoosely (he : ∀ ds, ds.length ≤ cs.length → Sound e ds)
    (hp : Parses rules (manyLoosely e) cs (some (ts, rest))) : SoundAll cs ts rest :=
  hp.manyLoosely_induction (fun _ => ⟨[], .nil, List.forall_mem_nil _, spacedBefore_nil⟩)
    (fun _ _ _ h => h.skipBlanks) fun _ _ _ _ _ hds hturn h => h.cons (he _ hds) hturn

/-- The brackets inside another one and its end. -/
theorem sound_children (hb : ∀ ds, ds.length ≤ cs.length → Sound (.rule .bracket) ds)
    (hp : Parses rules Rule.children (skipBlanks cs) (some (ts, rest))) :
    ∃ bs : List Bracket, bs ≠ [] ∧ List.Forall₂ StandsFor ts bs ∧ (∀ b ∈ bs, b.Proper) ∧
      SpacedBefore (lexemesAll bs ++ [.sign ")"]) cs rest := by
  obtain ⟨us, mid, vs, hall, hclose, hts⟩ := parses_loosely.mp hp
  obtain ⟨us₁, mid₁, us₂, hfirst, hmore, hus⟩ := parses_loosely.mp hall
  obtain ⟨hvs, hend⟩ := parses_sign.mp hclose
  have hskip := length_skipBlanks_le cs
  have hskip₁ := length_skipBlanks_le mid₁
  have hle := hfirst.length_le
  obtain ⟨bs, hbs, hpropers, hwrites⟩ :=
    soundAll_manyLoosely (fun ds hds => hb ds (by omega)) hmore
  obtain ⟨t, b, ht, hdenotes, hproper, hwritten⟩ := hb _ hskip _ _ hfirst
  subst us₁ us vs ts
  refine ⟨b :: bs, List.cons_ne_nil b bs, ?_, List.forall_mem_cons.mpr ⟨hproper, hpropers⟩, ?_⟩
  · simpa using ⟨hdenotes, hbs⟩
  · have hlast : SpacedBefore [.sign ")"] mid rest := spacedBefore_nil.sign ")" hend
    rw [lexemesAll, List.append_assoc]
    exact (hwritten.append (hwrites.skipBlanks.append hlast)).skipBlanks

theorem constituents_of_forall₂ {bs : List Bracket} (h : List.Forall₂ StandsFor ts bs) :
    BracketTree.constituents ts = Bracket.constituents bs := by
  induction h with
  | nil => rfl
  | cons hb _ ih => rw [BracketTree.constituents, Bracket.constituents, hb.constituent_eq, ih]

theorem exists_lexemesAll {bs : List Bracket} (h : bs ≠ []) :
    ∃ ls, lexemesAll bs = .sign "(" :: ls := by
  obtain ⟨b, bs', hbs⟩ := List.exists_cons_of_ne_nil h
  obtain ⟨ls, hls⟩ := exists_lexemes b
  exact ⟨ls ++ lexemesAll bs', by rw [hbs, lexemesAll, hls]; rfl⟩

theorem sound_derived (hb : ∀ ds, ds.length < cs.length → Sound (.rule .bracket) ds) :
    Sound (.rule .derived) cs := by
  intro ts rest hp
  obtain ⟨parts, hbody, ht⟩ := parses_rule.mp hp
  obtain ⟨inner, hcs, hinner⟩ := parses_signLoosely.mp hbody
  obtain ⟨header, hopen, hheader⟩ := parses_opening.mp hinner
  obtain ⟨category, mid₁, vs₁, hparts, hcategory, hread₁, hmid₁, hmore₁⟩ :=
    takesRun_field.parses_loosely.mp hheader
  obtain ⟨head, mid₂, vs₂, hvs₁, hhead, hread₂, hmid₂, hmore₂⟩ :=
    takesRun_index.parses_loosely.mp hmore₁
  obtain ⟨arity, mid₃, vs₃, hvs₂, harity, hread₃, hmid₃, hmore₃⟩ :=
    takesRun_index.parses_loosely.mp hmore₂
  obtain ⟨left, hangle, hchildren⟩ := parses_signLoosely.mp hmore₃
  have hnumeral := isRun_index.mp hhead
  have hshorter : left.length < cs.length := by
    have hinner := length_of_skipBlanks (x := ['<', 'T']) hopen
    have hheader := length_of_skipBlanks hread₁
    have hhead := length_of_skipBlanks hread₂
    have harity := length_of_skipBlanks hread₃
    have hleft := length_of_skipBlanks (x := ['>']) hangle
    rw [hcs, List.length_cons]
    omega
  obtain ⟨bs, hne, hbs, hpropers, hwrites⟩ :=
    sound_children (fun ds hds => hb ds (by omega)) hchildren
  subst cs parts vs₁ vs₂
  refine ⟨_, derived category head arity bs, ht, ⟨by simp [ParseTree.rule], ?_⟩,
    .derived (isRun_field.mp hcategory) hnumeral (isRun_index.mp harity) hne hpropers, ?_⟩
  · simp only [BracketTree.constituent, ParseTree.text,
      constituents_of_forall₂ hbs, Bracket.constituent]
  · have hfield := isRun_field.mpr (Token.isField_of_isNumeral hnumeral)
    have h₃ : SpacedBefore (.text arity :: .sign ">" :: (lexemesAll bs ++ [.sign ")"])) mid₂ rest :=
      (hwrites.sign ">" hangle).run arity hread₃ hmid₃ trivial
    have h₂ := h₃.run head hread₂ hmid₂ (continues_run harity fun _ h => h)
    have h₁ := h₂.run category hread₁ hmid₁ (continues_run hfield fun _ h => h)
    exact (h₁.sign "<T" hopen).sign "(" rfl

theorem constituent_phrase {text : String} (h : ∀ t ∈ ts.head?, t.rule ≠ .label) :
    BracketTree.constituent (.node .phrase text ts) =
      (BracketTree.constituents ts).map (.node (.bare "")) := by
  rw [BracketTree.constituent]
  · cases BracketTree.constituents ts <;> rfl
  · intro label parts children hts
    subst ts
    exact h _ rfl rfl

theorem head_of_forall₂ {bs : List Bracket} (h : List.Forall₂ StandsFor ts bs) :
    ∀ t ∈ ts.head?, t.rule ≠ .label := by
  intro t ht
  cases h with
  | nil => cases ht
  | cons hb _ =>
    cases ht
    exact hb.rule_ne

theorem sound_phrase (hb : ∀ ds, ds.length < cs.length → Sound (.rule .bracket) ds) :
    Sound (.rule .phrase) cs := by
  intro ts rest hp
  obtain ⟨parts, hbody, ht⟩ := parses_rule.mp hp
  obtain ⟨inner, hcs, hinner⟩ := parses_signLoosely.mp hbody
  obtain ⟨us, mid, vs, hlabel, hchildren, hparts⟩ := parses_loosely.mp hinner
  subst cs parts
  rcases parses_choice.mp hlabel with hsome | ⟨_, hnone⟩
  · obtain ⟨label, hus, hrun, hread, hmid⟩ := takesRun_label.parses_iff.mp hsome
    have hshorter := length_of_skipBlanks hread
    obtain ⟨bs, hne, hbs, hpropers, hwrites⟩ :=
      sound_children (fun ds hds => hb ds (by simp; omega)) hchildren
    subst us
    refine ⟨_, phrase (some label) bs, ht, ⟨by simp [ParseTree.rule], ?_⟩,
      .phrase (fun l hl => ?_) hne hpropers, ?_⟩
    · simp only [BracketTree.constituent, List.cons_append, List.nil_append,
        constituents_of_forall₂ hbs, Bracket.constituent, Option.getD_some]
    · cases hl
      exact isRun_label.mp hrun
    · obtain ⟨ls, hls⟩ := exists_lexemesAll hne
      have hnext : Continues isWordChar (lexemesAll bs ++ [.sign ")"]) := by
        rw [hls]
        trivial
      exact (hwrites.run label hread hmid hnext).sign "(" rfl
  · cases hnone
    have hskip := length_skipBlanks_le inner
    obtain ⟨bs, hne, hbs, hpropers, hwrites⟩ :=
      sound_children (fun ds hds => hb ds (by simp; omega)) hchildren
    refine ⟨_, phrase none bs, ht, ⟨by simp [ParseTree.rule], ?_⟩,
      .phrase (fun l hl => (by cases hl)) hne hpropers, ?_⟩
    · rw [List.nil_append, constituent_phrase (head_of_forall₂ hbs), constituents_of_forall₂ hbs,
        Bracket.constituent]
      cases Bracket.constituents bs <;> rfl
    · exact hwrites.skipBlanks.sign "(" rfl

theorem sound_bracket (cs : List Char) : Sound (.rule .bracket) cs := by
  induction hn : cs.length using Nat.strongRecOn generalizing cs with
  | _ n ih =>
    subst hn
    -- the brackets inside another one are shorter, as the one around them has its parentheses
    have hinner : ∀ ds, ds.length < cs.length → Sound (.rule .bracket) ds :=
      fun ds hds => ih _ hds ds rfl
    intro ts rest hp
    obtain ⟨us, hbody, ht⟩ := parses_rule.mp hp
    subst ht
    rcases parses_choice.mp hbody with h | ⟨_, h⟩
    · exact sound_lexical ts rest h
    rcases parses_choice.mp h with h | ⟨_, h⟩
    · exact sound_derived hinner ts rest h
    rcases parses_choice.mp h with h | ⟨_, h⟩
    · exact sound_leaf ts rest h
    · exact sound_phrase hinner ts rest h

/-- The fallbacks are never taken: each parse tree is one of a bracket that is spelled there, with
the tree that the bracket denotes. -/
theorem IsParseTree.exists_spelled {t : BracketTree} (h : IsParseTree cs t) :
    ∃ b : Bracket, b.Spelled cs ∧ t.toTree = b.constituent.map Constituent.toTree := by
  obtain ⟨parts, hbody, ht⟩ := parses_rule.mp h
  obtain ⟨us, mid, vs, hbracket, hend, hparts⟩ := parses_loosely.mp (parses_blanks.mp hbody)
  obtain ⟨root, b, hus, hroot, hproper, hwrites⟩ := sound_bracket _ us mid hbracket
  obtain ⟨ws, hrest, hvs⟩ := parses_rule.mp hend
  obtain ⟨_, hmid, _⟩ := parses_end.mp hrest
  subst us parts
  obtain ⟨rfl, _⟩ := List.cons.inj ht
  refine ⟨b, ⟨hproper, ?_⟩, ?_⟩
  · have hdone := hwrites.skipBlanks [] (.done (blanks_of_skipBlanks hmid))
    rwa [List.append_nil] at hdone
  · rw [List.singleton_append, BracketTree.toTree, hroot.constituent_eq]

end Bracket

end TreeQuery
