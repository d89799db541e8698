import Mathlib.Data.List.Forall2
import TreeQuery.Pattern.Printer
import TreeQuery.Proofs.Outcomes
import TreeQuery.Proofs.Pattern.Parts
import TreeQuery.Proofs.Pattern.Symbols
import TreeQuery.Proofs.Query.Phrases
import TreeQuery.Proofs.Query.Tokens
import TreeQuery.Query.Reader
import TreeQuery.Regex.Engine
import TreeQuery.Unicode.Version15

namespace TreeQuery

section

variable [RegexEngine]

theorem TextRegex.of_compile? {source : String} {anchored : Bool} {re : TextRegex}
    (h : compile? source anchored = some re) : re.source = source ∧ re.anchored = anchored := by
  unfold compile? at h
  split at h
  · cases h
    exact ⟨rfl, rfl⟩
  · cases h

namespace Query

open Pattern

/-- A value becomes an anchor with the same text, or with an expression from the same source. -/
theorem Value.of_resolve {v : Value} {text : String → Anchor} {regex : TextRegex → Anchor}
    {a : Anchor} (h : v.resolve text regex = .ok a) :
    (∃ s, v = .text s ∧ a = text s) ∨
      ∃ re : TextRegex, v = .regex re.source re.anchored ∧ a = regex re := by
  cases v with
  | text s =>
    cases h
    exact .inl ⟨s, rfl, rfl⟩
  | regex source anchored =>
    cases hre : TextRegex.compile? source anchored with
    | none =>
      simp only [Value.resolve, hre] at h
      cases h
    | some re =>
      simp only [Value.resolve, hre] at h
      cases h
      obtain ⟨rfl, rfl⟩ := TextRegex.of_compile? hre
      exact .inr ⟨re, rfl, rfl⟩

theorem foldl_constrain_node (a : Anchor) (cs ps : List Pattern) :
    ps.foldl constrain (node a cs) = node a (cs ++ ps) := by
  induction ps generalizing cs with
  | nil => rw [List.append_nil]; rfl
  | cons p ps ih =>
    rw [List.foldl_cons, constrain, ih, List.append_assoc]
    rfl

/-- The group of a pattern, captured or not. -/
def enclose (capture : Option String) (p : Pattern) : Pattern :=
  match capture with
  | some var => .capture (.group p) var
  | none => .group p

theorem foldl_constrain_enclose (capture : Option String) (p c : Pattern) (cs : List Pattern) :
    (c :: cs).foldl constrain (enclose capture p) =
      node .any (.related .self (enclose capture p) :: c :: cs) := by
  have hc : constrain (enclose capture p) c =
      node .any [.related .self (enclose capture p), c] := by
    cases capture <;> rfl
  rw [List.foldl_cons, hc, foldl_constrain_node]
  rfl

theorem isItem_enclose (capture : Option String) (p : Pattern) :
    (enclose capture p).isItem = true := by
  cases capture <;> rfl

theorem NodePhrase.resolve_eq_ok {n : NodePhrase} {p : Pattern} : n.resolve = .ok p ↔
    ∃ ps q, resolveAll n.constraints = .ok ps ∧ n.head.resolve = .ok q ∧
      p = ps.foldl constrain q := by
  unfold NodePhrase.resolve
  simp only [bind_eq_ok]
  constructor
  · rintro ⟨ps, hps, q, hq, he⟩
    cases he
    exact ⟨ps, q, hps, hq, rfl⟩
  · rintro ⟨ps, q, hps, hq, rfl⟩
    exact ⟨ps, hps, q, hq, rfl⟩

theorem Phrase.resolve_group (head : Phrase) (cs : List Phrase) (capture : Option String) :
    (Phrase.group head cs capture).resolve =
      (NodePhrase.resolve ⟨head, cs⟩).map (enclose capture) := by
  rw [Phrase.resolve, NodePhrase.resolve]
  cases resolveAll cs with
  | error e => rfl
  | ok ps =>
    cases head.resolve with
    | error e => simp [bind, Except.bind, Except.map]
    | ok q => cases capture <;> simp [bind, Except.bind, Except.map, pure, Except.pure, enclose]

omit [RegexEngine] in
theorem tokens_subset_all {ph : Phrase} {phs : List Phrase} (h : ph ∈ phs) :
    ph.tokens ⊆ tokensAll phs := by
  induction phs with
  | nil => cases h
  | cons q phs ih =>
    rcases List.mem_cons.mp h with rfl | h
    · exact List.subset_append_left _ _
    · exact List.Subset.trans (ih h) (List.subset_append_right _ _)

omit [RegexEngine] in
theorem tokens_subset_barred {ph : Phrase} {phs : List Phrase} (h : ph ∈ phs) :
    ph.tokens ⊆ tokensBarred phs := by
  induction phs with
  | nil => cases h
  | cons q phs ih =>
    rcases List.mem_cons.mp h with rfl | h
    · exact fun _ hm => List.mem_cons_of_mem _ (List.mem_append_left _ hm)
    · exact fun _ hm => List.mem_cons_of_mem _ (List.mem_append_right _ (ih h hm))

theorem resolveAll_cons {ph : Phrase} {phs : List Phrase} {ps : List Pattern} :
    resolveAll (ph :: phs) = .ok ps ↔
      ∃ q qs, ph.resolve = .ok q ∧ resolveAll phs = .ok qs ∧ ps = q :: qs := by
  rw [resolveAll]
  simp only [bind_eq_ok]
  constructor
  · rintro ⟨q, hq, qs, hqs, he⟩
    cases he
    exact ⟨q, qs, hq, hqs, rfl⟩
  · rintro ⟨q, qs, hq, hqs, rfl⟩
    exact ⟨q, hq, qs, hqs, rfl⟩

theorem resolve_relation {symbol : String} {ph : Phrase} {p : Pattern}
    (h : (Phrase.relation symbol ph).resolve = .ok p) :
    ∃ op q, Operator.parse symbol = .ok op ∧ ph.resolve = .ok q ∧ p = .related op q := by
  rw [Phrase.resolve] at h
  obtain ⟨op, hop, h⟩ := bind_eq_ok.mp h
  obtain ⟨q, hq, he⟩ := bind_eq_ok.mp h
  cases he
  exact ⟨op, q, mapError_eq_ok.mp hop, hq, rfl⟩

theorem resolve_alternatives {first second : Phrase} {others : List Phrase} {p : Pattern} :
    (Phrase.alternatives first second others).resolve = .ok p ↔
      ∃ x xs, first.resolve = .ok x ∧ resolveAll (second :: others) = .ok xs ∧
        p = Query.alternatives x xs := by
  rw [Phrase.resolve]
  simp only [bind_eq_ok]
  constructor
  · rintro ⟨x, hx, y, hy, ys, hys, he⟩
    cases he
    exact ⟨x, y :: ys, hx, resolveAll_cons.mpr ⟨y, ys, hy, hys, rfl⟩, rfl⟩
  · rintro ⟨x, xs, hx, hxs, rfl⟩
    obtain ⟨y, ys, hy, hys, rfl⟩ := resolveAll_cons.mp hxs
    exact ⟨x, hx, y, hy, ys, hys, rfl⟩

/-- A head is an anchor or a group. -/
theorem head_of_resolve {ph : Phrase} (h : Shaped .item ph) {q : Pattern}
    (hq : ph.resolve = .ok q) : (∃ a, q = .ofAnchor a) ∨ ∃ capture p, q = enclose capture p := by
  cases h with
  | anchor l =>
    obtain ⟨a, _, rfl⟩ := map_eq_ok.mp hq
    exact .inl ⟨a, rfl⟩
  | bracedItem h =>
    cases h with
    | group capture _ _ =>
      rw [Phrase.resolve_group] at hq
      obtain ⟨p, _, rfl⟩ := map_eq_ok.mp hq
      exact .inr ⟨capture, p, rfl⟩

end Query

variable [Unicode.Tables]

namespace Anchor

/-- The text that an anchor compares with. -/
def text? : Anchor → Option String
  | label s | word s | category s => some s
  | capture anchor _ => anchor.text?
  | _ => none

def regex? : Anchor → Option TextRegex
  | labelMatching re | wordMatching re | categoryMatching re => some re
  | capture anchor _ => anchor.regex?
  | _ => none

/-- No text has a character that is spelled as a code, and no source has a slash. -/
structure Printable (a : Anchor) : Prop where
  text : ∀ s ∈ a.text?, ∀ c ∈ s.toList, Quoted.IsPlain c
  regex : ∀ re ∈ a.regex?, '/' ∉ re.source.toList

/-- The check goes through the characters that occur, and not through all there are. -/
def isPrintable (a : Anchor) : Bool :=
  (a.text?.all fun s => s.toList.all fun c => decide (Quoted.IsPlain c)) &&
    a.regex?.all fun re => decide ('/' ∉ re.source.toList)

theorem isPrintable_iff {a : Anchor} : a.isPrintable = true ↔ a.Printable := by
  simp only [isPrintable, Bool.and_eq_true, Option.all_eq_true, List.all_eq_true, decide_eq_true_eq]
  exact ⟨fun h => ⟨h.1, h.2⟩, fun h => ⟨h.text, h.regex⟩⟩

instance (a : Anchor) : Decidable a.Printable :=
  decidable_of_iff _ isPrintable_iff

end Anchor

namespace Pattern

/-- The anchors can be printed, and no operator has a symbol that is read as another one. -/
structure Printable (p : Pattern) : Prop where
  anchors : ∀ a ∈ p.anchors, a.Printable
  firstChild : .nthChild 1 ∉ p.operators
  secondChild : .nthChild 2 ∉ p.operators

theorem Printable.part {c p : Pattern} (h : p.Printable) (hc : Part c p) : c.Printable where
  anchors := fun a ha => h.anchors a (hc.collect_subset _ _ _ ha)
  firstChild := fun ho => h.firstChild (hc.collect_subset _ _ _ ho)
  secondChild := fun ho => h.secondChild (hc.collect_subset _ _ _ ho)

end Pattern

namespace Query

section Anchors

theorem Value.legible_of_resolve {v : Value} {text : String → Anchor} {regex : TextRegex → Anchor}
    {a : Anchor} (htext : ∀ s, (text s).text? = some s) (hregex : ∀ re, (regex re).regex? = some re)
    (hv : v.Written) (h : v.resolve text regex = .ok a) (ha : a.Printable) : v.Legible := by
  rcases Value.of_resolve h with ⟨s, rfl, rfl⟩ | ⟨re, rfl, rfl⟩
  · exact ha.text s (htext s)
  · have hno : '/' ∉ re.source.toList := ha.regex re (hregex re)
    exact ⟨hno, hv hno⟩

/-- An anchor is printed as it is spelled, with the name of what it captures after it. -/
theorem Base.print_eq_spell {b : Base} {a : Anchor} (h : b.resolve = .ok a) :
    a.print = b.spell := by
  cases b with
  | label v | word v | category v =>
    rcases Value.of_resolve h with ⟨s, rfl, rfl⟩ | ⟨re, rfl, rfl⟩ <;> rfl
  | any | sameAs var | differentFrom var =>
    cases h
    rfl

theorem Literal.print_eq_spell {l : Literal} {a : Anchor} (h : l.resolve = .ok a) :
    a.print = l.spell := by
  obtain ⟨base, capture⟩ := l
  obtain ⟨anchor, hbase, rfl⟩ := map_eq_ok.mp h
  cases capture with
  | none => exact (Base.print_eq_spell hbase).trans (List.append_nil _).symm
  | some var =>
    change anchor.print ++ '=' :: var.toList = _
    rw [Base.print_eq_spell hbase]
    rfl

theorem Base.legible_of_resolve {b : Base} {a : Anchor} (hb : b.Written) (h : b.resolve = .ok a)
    (ha : a.Printable) : b.Legible := by
  cases b with
  | any => trivial
  | label v | word v | category v =>
    exact Value.legible_of_resolve (fun _ => rfl) (fun _ => rfl) hb h ha
  | sameAs var | differentFrom var => exact hb

theorem Literal.legible_of_resolve {l : Literal} {a : Anchor} (hl : l.Written)
    (h : l.resolve = .ok a) (ha : a.Printable) : l.Legible := by
  obtain ⟨base, capture⟩ := l
  obtain ⟨anchor, hbase, rfl⟩ := map_eq_ok.mp h
  have hanchor : anchor.Printable := by
    cases capture with
    | none => exact ha
    | some var => exact ⟨ha.text, ha.regex⟩
  exact ⟨Base.legible_of_resolve hl.1 hbase hanchor, hl.2⟩

end Anchors

section Phrases

open Pattern

/-- Whether a node or a constraint is called for where the phrase may stand. -/
def Role.Accepts : Role → Bool → Prop
  | braced, _ => True
  | item, wanting => wanting = true
  | unary, wanting | constraint, wanting => wanting = false

/-- The pattern is printed as the tokens of the phrase, from which it is read. -/
structure Prints (r : Role) (ph : Phrase) (p : Pattern) : Prop where
  shaped : Shaped r ph
  chain : ∀ wanting, r.Accepts wanting → Chain wanting ph.tokens false
  resolve : ph.resolve = .ok p
  print : ' ' :: p.print = spaced ph.tokens

structure NodePhrase.Prints (n : NodePhrase) (p : Pattern) : Prop where
  shaped : n.Shaped
  chain : Chain true n.tokens false
  resolve : n.resolve = .ok p
  print : ' ' :: p.print = spaced n.tokens

/-- The same of several constraints, one after another. -/
structure PrintsAll (phs : List Phrase) (ps : List Pattern) : Prop where
  shaped : ∀ ph ∈ phs, Shaped .constraint ph
  chain : Chain false (tokensAll phs) false
  resolve : resolveAll phs = .ok ps
  print : printAll ps = spaced (tokensAll phs)

theorem printsAll {phs : List Phrase} {ps : List Pattern}
    (h : List.Forall₂ (Prints .constraint) phs ps) : PrintsAll phs ps := by
  induction h with
  | nil => exact ⟨fun _ hm => absurd hm List.not_mem_nil, rfl, rfl, rfl⟩
  | @cons ph p phs ps hp _ ih =>
    refine ⟨List.forall_mem_cons.mpr ⟨hp.shaped, ih.shaped⟩, ?_, ?_, ?_⟩
    · exact (hp.chain false rfl).append ih.chain
    · rw [resolveAll, hp.resolve, ih.resolve]
      rfl
    · rw [printAll, tokensAll, spaced_append, ← hp.print, ih.print]

theorem prints_anchor {l : Literal} {a : Anchor} (hl : l.Legible) (h : l.resolve = .ok a)
    (hp : a.print = l.spell) : Prints .item (.anchor l) (.ofAnchor a) where
  shaped := .anchor l
  chain := fun wanting hw => ⟨⟨hw, hl⟩, rfl⟩
  resolve := by
    rw [Phrase.resolve, h]
    rfl
  print := by
    change ' ' :: (a.print ++ []) = ' ' :: l.spell ++ []
    rw [hp]
    rfl

omit [RegexEngine] in
theorem operator_legible (op : Operator) : (Token.operator op.symbol).Legible false := by
  have hplain : ∀ op ∈ Operator.plain, op.symbol.toList ≠ [] ∧
      op.symbol.toList.all Token.isOperatorChar = true := by decide
  have hsigns : ∀ sign ∈ Operator.numberSigns, sign.1.toList ≠ [] ∧
      sign.1.toList.all Token.isOperatorChar = true := by decide
  rcases op.symbol_cases with hm | ⟨sign, make, n, hm, _, he⟩
  · obtain ⟨hne, hchars⟩ := hplain op hm
    exact ⟨rfl, hne, List.all_eq_true.mp hchars⟩
  · obtain ⟨hne, hchars⟩ := hsigns _ hm
    have hdigits : ∀ c ∈ (Numeral.print n).toList, Token.isOperatorChar c = true := by
      intro c hc
      have hn := Numeral.isNumeral_print n
      simp only [Numeral.isNumeral, Bool.and_eq_true, List.all_eq_true] at hn
      rw [Token.isOperatorChar, hn.2 c hc]
      rfl
    rw [he]
    refine ⟨rfl, ?_, ?_⟩
    · rw [String.toList_append]
      exact List.append_ne_nil_of_left_ne_nil hne _
    · rw [String.toList_append]
      exact List.forall_mem_append.mpr ⟨List.all_eq_true.mp hchars, hdigits⟩

theorem Prints.related {op : Operator} {ph : Phrase} {p : Pattern} (h : Prints .item ph p)
    (hp : p.isItem = true) (hop : Operator.parse op.symbol = .ok op) :
    Prints .unary (.relation op.symbol ph) (.related op p) where
  shaped := .relation op.symbol h.shaped
  chain := by
    rintro _ rfl
    exact ⟨operator_legible op, h.chain true rfl⟩
  resolve := by
    rw [Phrase.resolve, hop, h.resolve]
    rfl
  print := by
    rw [Pattern.print, if_pos hp, Phrase.tokens, spaced_cons, ← h.print]
    rfl

theorem Prints.not {ph : Phrase} {p : Pattern} (h : Prints .unary ph p) :
    Prints .unary (.not ph) (.not p) where
  shaped := .not h.shaped
  chain := by
    rintro _ rfl
    exact ⟨rfl, h.chain false rfl⟩
  resolve := by
    rw [Phrase.resolve, h.resolve]
    rfl
  print := by
    rw [Pattern.print, Phrase.tokens, spaced_cons, ← h.print]
    rfl

theorem Prints.optional {ph : Phrase} {p : Pattern} (h : Prints .unary ph p) :
    Prints .unary (.optional ph) (.optional p) where
  shaped := .optional h.shaped
  chain := by
    rintro _ rfl
    exact ⟨rfl, h.chain false rfl⟩
  resolve := by
    rw [Phrase.resolve, h.resolve]
    rfl
  print := by
    rw [Pattern.print, Phrase.tokens, spaced_cons, ← h.print]
    rfl

theorem Prints.all {ms : List Phrase} {ps : List Pattern} (hne : ms ≠ []) (h : PrintsAll ms ps) :
    Prints .unary (.all ms) (.all ps) where
  shaped := .all hne h.shaped
  chain := by
    rintro _ rfl
    exact ⟨rfl, h.chain.append ⟨rfl, rfl⟩⟩
  resolve := by
    rw [Phrase.resolve, h.resolve]
    rfl
  print := by
    rw [Pattern.print, Phrase.tokens, spaced_append, spaced_cons, ← h.print]
    simp [spaced, Token.spell]

/-- Alternatives are printed with bars between them, in whichever way they nest. -/
theorem Prints.alternatives {ph : Phrase} {p : Pattern} (h : Prints .unary ph p)
    {phs : List Phrase} {ps : List Pattern} (hs : List.Forall₂ (Prints .unary) phs ps) :
    (∀ q ∈ phs, Shaped .unary q) ∧ Chain false (tokensBarred phs) false ∧
      resolveAll phs = .ok ps ∧
      ' ' :: (Query.alternatives p ps).print = spaced (ph.tokens ++ tokensBarred phs) := by
  induction hs generalizing ph p with
  | nil =>
    refine ⟨fun _ hm => absurd hm List.not_mem_nil, rfl, rfl, ?_⟩
    rw [Query.alternatives, h.print, tokensBarred, List.append_nil]
  | @cons q x phs ps hq _ ih =>
    obtain ⟨hshaped, hchain, hresolve, hprint⟩ := ih hq
    refine ⟨List.forall_mem_cons.mpr ⟨hq.shaped, hshaped⟩, ?_, ?_, ?_⟩
    · exact ⟨rfl, (hq.chain false rfl).append hchain⟩
    · rw [resolveAll, hq.resolve, hresolve]
      rfl
    · have ht : spaced (.bar :: (q.tokens ++ tokensBarred phs)) =
          ' ' :: '|' :: ' ' :: (Query.alternatives x ps).print := by
        rw [spaced_cons, ← hprint]
        rfl
      rw [Query.alternatives, Pattern.print, tokensBarred, spaced_append, List.cons_append, ht,
        ← h.print]
      simp

theorem Prints.toNode {ph : Phrase} {p : Pattern} (h : Prints .item ph p) :
    NodePhrase.Prints ⟨ph, []⟩ p where
  shaped := ⟨h.shaped, fun _ hc => absurd hc List.not_mem_nil⟩
  chain := (h.chain true rfl).append rfl
  resolve := NodePhrase.resolve_eq_ok.mpr ⟨[], p, rfl, h.resolve, rfl⟩
  print := by
    rw [h.print, NodePhrase.tokens, tokensAll, List.append_nil]

theorem Prints.node {ph : Phrase} {a : Anchor} (h : Prints .item ph (.ofAnchor a))
    {phs : List Phrase} {ps : List Pattern} (hs : PrintsAll phs ps) :
    NodePhrase.Prints ⟨ph, phs⟩ (.node a ps) where
  shaped := ⟨h.shaped, hs.shaped⟩
  chain := (h.chain true rfl).append hs.chain
  resolve := by
    refine NodePhrase.resolve_eq_ok.mpr ⟨ps, .ofAnchor a, hs.resolve, h.resolve, ?_⟩
    exact (foldl_constrain_node a [] ps).symm
  print := by
    have ha : ' ' :: a.print = spaced ph.tokens := by
      rw [← h.print, ofAnchor, Pattern.print, printAll, List.append_nil]
    rw [Pattern.print, NodePhrase.tokens, spaced_append, ← ha, ← hs.print]
    rfl

theorem prints_group {n : NodePhrase} {p : Pattern} (h : n.Prints p)
    {capture : Option String} (hv : ∀ v ∈ capture, IsVar v) :
    Prints .braced (.group n.head n.constraints capture) (enclose capture p) where
  shaped := .group capture h.shaped.head h.shaped.constraints
  chain := by
    rintro wanting _
    refine ⟨trivial, ?_⟩
    exact h.chain.append ⟨⟨rfl, hv⟩, rfl⟩
  resolve := by
    rw [Phrase.resolve_group]
    exact congrArg (Except.map _) h.resolve
  print := by
    have hp : (enclose capture p).print = inBraces p.print ++ spellCapture capture := by
      cases capture with
      | none => exact (List.append_nil _).symm
      | some var => rfl
    have ht : (Phrase.group n.head n.constraints capture).tokens =
        .openBrace :: n.tokens ++ [.closeBrace capture] := rfl
    rw [hp, ht, spaced_append, spaced_cons, ← h.print]
    simp [inBraces, spaced, Token.spell]

/-- The node as which a query without an anchor is printed. -/
theorem prints_any : Prints .item (.anchor ⟨.any, none⟩) (.ofAnchor .any) :=
  prints_anchor ⟨trivial, fun _ hv => by cases hv⟩ rfl rfl

/-- A pattern that is printed as the tokens of a phrase is read from its text. -/
theorem NodePhrase.Prints.parse {n : NodePhrase} {p : Pattern} (h : n.Prints p) :
    Pattern.parse p.toText = .ok p := by
  have hcut : Token.cut? true p.toText.toList = some n.tokens := by
    rw [toText, String.toList_ofList]
    exact cut?_of_spaced h.chain h.print
  have hread : NodePhrase.ofText? p.toText.toList = some n := by
    rw [NodePhrase.ofText?, hcut, Option.bind_some]
    exact NodePhrase.ofTokens?_eq_some.mpr ⟨h.shaped, rfl⟩
  rw [Pattern.parse, hread]
  exact h.resolve

/-- Whatever printable pattern the phrase is read as is printed as a phrase in the same place. -/
def Reprints (r : Role) (ph : Phrase) : Prop :=
  ∀ p, (∀ tok ∈ ph.tokens, tok.Written) → ph.resolve = .ok p → p.Printable →
    ∃ ph', Prints r ph' p

theorem reprints_all {r : Role} {phs : List Phrase} (h : ∀ ph ∈ phs, Reprints r ph)
    (hw : ∀ ph ∈ phs, ∀ tok ∈ ph.tokens, tok.Written) {ps : List Pattern}
    (hr : resolveAll phs = .ok ps) (hp : ∀ p ∈ ps, p.Printable) :
    ∃ phs', List.Forall₂ (Prints r) phs' ps := by
  induction phs generalizing ps with
  | nil =>
    cases hr
    exact ⟨[], .nil⟩
  | cons ph phs ih =>
    obtain ⟨q, qs, hq, hqs, rfl⟩ := resolveAll_cons.mp hr
    obtain ⟨h, hs⟩ := List.forall_mem_cons.mp h
    obtain ⟨hw, hws⟩ := List.forall_mem_cons.mp hw
    obtain ⟨hp, hps⟩ := List.forall_mem_cons.mp hp
    obtain ⟨ph', hph⟩ := h q hw hq hp
    obtain ⟨phs', hphs⟩ := ih hs hws hqs hps
    exact ⟨ph' :: phs', .cons hph hphs⟩

theorem printable_alternatives {p : Pattern} {ps : List Pattern}
    (h : (Query.alternatives p ps).Printable) : p.Printable ∧ ∀ q ∈ ps, q.Printable := by
  induction ps generalizing p with
  | nil => exact ⟨h, fun _ hm => absurd hm List.not_mem_nil⟩
  | cons q ps ih =>
    obtain ⟨hq, hps⟩ := ih (h.part .right)
    exact ⟨h.part .left, List.forall_mem_cons.mpr ⟨hq, hps⟩⟩

theorem reprints_node {n : NodePhrase} (hs : n.Shaped) (hhead : Reprints .item n.head)
    (hcs : ∀ c ∈ n.constraints, Reprints .constraint c) (hw : ∀ tok ∈ n.tokens, tok.Written)
    {p : Pattern} (h : n.resolve = .ok p) (hp : p.Printable) : ∃ n' : NodePhrase, n'.Prints p := by
  obtain ⟨ps, q, hps, hq, rfl⟩ := NodePhrase.resolve_eq_ok.mp h
  have hwhead : ∀ tok ∈ n.head.tokens, tok.Written :=
    fun tok hm => hw tok (List.mem_append_left _ hm)
  have hwcs : ∀ c ∈ n.constraints, ∀ tok ∈ c.tokens, tok.Written := fun c hc tok hm =>
    hw tok (List.mem_append_right _ (tokens_subset_all hc hm))
  rcases head_of_resolve hs.head hq with ⟨a, rfl⟩ | ⟨capture, inner, rfl⟩
  · rw [ofAnchor, foldl_constrain_node, List.nil_append] at hp ⊢
    have ha : (ofAnchor a).Printable := by
      refine ⟨fun b hb => ?_, List.not_mem_nil, List.not_mem_nil⟩
      cases List.mem_singleton.mp hb
      exact hp.anchors a List.mem_cons_self
    obtain ⟨ph', hph⟩ := hhead _ hwhead hq ha
    obtain ⟨phs', hphs⟩ := reprints_all hcs hwcs hps fun c hc => hp.part (.constraint hc)
    exact ⟨_, hph.node (printsAll hphs)⟩
  · cases ps with
    | nil =>
      obtain ⟨ph', hph⟩ := hhead _ hwhead hq hp
      exact ⟨_, hph.toNode⟩
    | cons c ps =>
      rw [foldl_constrain_enclose] at hp ⊢
      have hself : (Pattern.related .self (enclose capture inner)).Printable :=
        hp.part (.constraint List.mem_cons_self)
      obtain ⟨ph', hph⟩ := hhead _ hwhead hq (hself.part .operand)
      obtain ⟨phs', hphs⟩ := reprints_all hcs hwcs hps fun d hd =>
        hp.part (.constraint (List.mem_cons_of_mem _ hd))
      have hfirst : Prints .unary (.relation Operator.self.symbol ph') _ :=
        hph.related (isItem_enclose capture inner) rfl
      have hsingle : Prints .constraint _ _ :=
        ⟨.single hfirst.shaped, hfirst.chain, hfirst.resolve, hfirst.print⟩
      exact ⟨_, prints_any.node (printsAll (.cons hsingle hphs))⟩

theorem reprints {r : Role} {ph : Phrase} (h : Shaped r ph) : Reprints r ph := by
  induction h with
  | @group head cs capture hhead hcs ihhead ihcs =>
    intro p hw hr hp
    rw [Phrase.resolve_group] at hr
    obtain ⟨q, hq, rfl⟩ := map_eq_ok.mp hr
    have hinner : q.Printable := by
      cases capture with
      | none => exact hp.part .grouped
      | some var => exact (hp.part .captured).part .grouped
    have hwnode : ∀ tok ∈ (NodePhrase.mk head cs).tokens, tok.Written := fun tok hm =>
      hw tok (List.mem_append_left _ (List.mem_cons_of_mem _ hm))
    obtain ⟨n', hn⟩ := reprints_node ⟨hhead, hcs⟩ ihhead ihcs hwnode hq hinner
    have hv : ∀ v ∈ capture, IsVar v :=
      hw (.closeBrace capture) (List.mem_append_right _ List.mem_cons_self)
    exact ⟨_, prints_group hn hv⟩
  | anchor l =>
    intro p hw hr hp
    obtain ⟨a, ha, rfl⟩ := map_eq_ok.mp hr
    have hl : l.Written := hw (.anchor l) List.mem_cons_self
    have hprintable : a.Printable := hp.anchors a List.mem_cons_self
    have hlegible : l.Legible := Literal.legible_of_resolve hl ha hprintable
    exact ⟨_, prints_anchor hlegible ha (Literal.print_eq_spell ha)⟩
  | bracedItem _ ih =>
    intro p hw hr hp
    obtain ⟨ph', hph⟩ := ih p hw hr hp
    exact ⟨ph', .bracedItem hph.shaped, fun w _ => hph.chain w trivial, hph.resolve, hph.print⟩
  | bracedUnary _ ih =>
    intro p hw hr hp
    obtain ⟨ph', hph⟩ := ih p hw hr hp
    exact ⟨ph', .bracedUnary hph.shaped, fun w _ => hph.chain w trivial, hph.resolve, hph.print⟩
  | relation symbol hs ih =>
    intro p hw hr hp
    obtain ⟨op, q, _, hq, rfl⟩ := resolve_relation hr
    have hop : Operator.parse op.symbol = .ok op := by
      apply Operator.parse_symbol
      · rintro rfl
        exact hp.firstChild List.mem_cons_self
      · rintro rfl
        exact hp.secondChild List.mem_cons_self
    have hitem : q.isItem = true := by
      rcases head_of_resolve hs hq with ⟨a, rfl⟩ | ⟨capture, inner, rfl⟩
      · rfl
      · exact isItem_enclose capture inner
    obtain ⟨ph', hph⟩ :=
      ih q (fun tok hm => hw tok (List.mem_cons_of_mem _ hm)) hq (hp.part .operand)
    exact ⟨_, hph.related hitem hop⟩
  | not _ ih =>
    intro p hw hr hp
    obtain ⟨q, hq, rfl⟩ := map_eq_ok.mp hr
    obtain ⟨ph', hph⟩ :=
      ih q (fun tok hm => hw tok (List.mem_cons_of_mem _ hm)) hq (hp.part .negated)
    exact ⟨_, hph.not⟩
  | optional _ ih =>
    intro p hw hr hp
    obtain ⟨q, hq, rfl⟩ := map_eq_ok.mp hr
    obtain ⟨ph', hph⟩ :=
      ih q (fun tok hm => hw tok (List.mem_cons_of_mem _ hm)) hq (hp.part .option)
    exact ⟨_, hph.optional⟩
  | @all ms hne _ ih =>
    intro p hw hr hp
    obtain ⟨ps, hps, rfl⟩ := map_eq_ok.mp hr
    have hwms : ∀ m ∈ ms, ∀ tok ∈ m.tokens, tok.Written := fun m hm tok ht =>
      hw tok (List.mem_append_left _ (List.mem_cons_of_mem _ (tokens_subset_all hm ht)))
    obtain ⟨phs', hphs⟩ := reprints_all ih hwms hps fun q hq => hp.part (.member hq)
    have hne' : phs' ≠ [] := by
      rintro rfl
      cases hphs
      obtain ⟨m, ms, rfl⟩ := List.exists_cons_of_ne_nil hne
      obtain ⟨_, _, _, _, he⟩ := resolveAll_cons.mp hps
      cases he
    exact ⟨_, Prints.all hne' (printsAll hphs)⟩
  | single _ ih =>
    intro p hw hr hp
    obtain ⟨ph', hph⟩ := ih p hw hr hp
    exact ⟨ph', .single hph.shaped, hph.chain, hph.resolve, hph.print⟩
  | @alternatives first second others _ _ ih ihs =>
    intro p hw hr hp
    obtain ⟨x, xs, hx, hxs, rfl⟩ := resolve_alternatives.mp hr
    obtain ⟨hprintable, hprintables⟩ := printable_alternatives hp
    have htokens : (Phrase.alternatives first second others).tokens =
        first.tokens ++ tokensBarred (second :: others) := rfl
    rw [htokens] at hw
    obtain ⟨ph', hph⟩ := ih x (fun tok hm => hw tok (List.mem_append_left _ hm)) hx hprintable
    have hws : ∀ q ∈ second :: others, ∀ tok ∈ q.tokens, tok.Written := fun q hq tok hm =>
      hw tok (List.mem_append_right _ (tokens_subset_barred hq hm))
    obtain ⟨phs', hphs⟩ := reprints_all ihs hws hxs hprintables
    obtain ⟨hshaped, hchain, hresolve, hprint⟩ := hph.alternatives hphs
    cases hphs with
    | nil =>
      obtain ⟨_, _, _, _, he⟩ := resolveAll_cons.mp hxs
      cases he
    | @cons second' y others' ys _ _ =>
      refine ⟨.alternatives ph' second' others', .alternatives hph.shaped hshaped, ?_, ?_, hprint⟩
      · rintro _ rfl
        exact (hph.chain false rfl).append hchain
      · exact resolve_alternatives.mpr ⟨x, _, hph.resolve, hresolve, rfl⟩

end Phrases

end Query

open Query in
/-- A printable pattern that was read from a query is read again from its own text. -/
theorem Pattern.parse_toText {query : String} {p : Pattern} (h : Pattern.parse query = .ok p)
    (hp : p.Printable) : Pattern.parse p.toText = .ok p := by
  unfold Pattern.parse at h
  split at h
  · rename_i n hn
    obtain ⟨ts, hts, hn⟩ := Option.bind_eq_some_iff.mp hn
    obtain ⟨hshaped, rfl⟩ := NodePhrase.ofTokens?_eq_some.mp hn
    obtain ⟨n', hn'⟩ := reprints_node hshaped (reprints hshaped.head)
      (fun c hc => reprints (hshaped.constraints c hc)) (written_of_cut? hts) h hp
    exact hn'.parse
  · cases h

end

/-- A captured group with constraints, one of them an alternative and one with a leading zero. -/
def Pattern.grouped : Pattern :=
  .node .any
    [.related .self (.capture (.group (.node (.label "S")
        [.related .firstChild (.ofAnchor (.capture (.label "NP") "N"))])) "G"),
      .or (.related (.nthChild 3) (.ofAnchor (.word "a \"b")))
        (.not (.related .ancestor (.ofAnchor (.sameAs "N")))),
      .all [.related .nextLeaf (.ofAnchor .any)]]

theorem Pattern.parse_toText_grouped :
    Pattern.parse "\x7b \"S\" <1 NP=N \x7d=G <03 ^\"a \\\"b\" | ! >> =N [ . * ]" = .ok grouped ∧
      grouped.Printable ∧ Pattern.parse grouped.toText = .ok grouped :=
  have h : Pattern.parse "\x7b \"S\" <1 NP=N \x7d=G <03 ^\"a \\\"b\" | ! >> =N [ . * ]" =
      .ok grouped := by
    decide +kernel
  have hp : grouped.Printable := ⟨by decide +kernel, by decide, by decide⟩
  ⟨h, hp, parse_toText h hp⟩

end TreeQuery
