import TreeQuery.Pattern.Printer
import TreeQuery.Proofs.Category.Printing
import TreeQuery.Proofs.Pattern.Tests
import TreeQuery.Proofs.Query.Phrases
import TreeQuery.Proofs.Query.Tokens
import TreeQuery.Query.Reader
import TreeQuery.Regex.Engine
import TreeQuery.Unicode.Version15

namespace TreeQuery.Query

open Text Token

/-- A text that belongs to a category without quotes as a whole, whatever comes after it. -/
def Whole (cs : List Char) : Prop :=
  ∀ rest, bareCategory false (cs ++ rest) =
    (cs ++ (bareCategory false rest).1, (bareCategory false rest).2)

theorem whole_nil : Whole [] :=
  fun _ => rfl

theorem Whole.append {cs ds : List Char} (hc : Whole cs) (hd : Whole ds) : Whole (cs ++ ds) := by
  intro rest
  rw [List.append_assoc, hc, hd, List.append_assoc]

theorem whole_char {c : Char} (hc : isCategoryChar c = true) : Whole [c] := by
  intro rest
  have hb : c ≠ '[' := by
    rintro rfl
    cases hc
  rw [List.singleton_append, bareCategory]
  simp [hc, hb]

theorem whole_run {cs : List Char} (h : ∀ c ∈ cs, isCategoryChar c = true) : Whole cs := by
  induction cs with
  | nil => exact whole_nil
  | cons c cs ih =>
    obtain ⟨hc, hcs⟩ := List.forall_mem_cons.mp h
    exact (whole_char hc).append (ih hcs)

/-- Within a feature everything is taken up to its closing bracket. -/
theorem bareCategory_inFeature {cs : List Char} (h : ']' ∉ cs) (rest : List Char) :
    bareCategory true (cs ++ ']' :: rest) =
      (cs ++ ']' :: (bareCategory false rest).1, (bareCategory false rest).2) := by
  induction cs with
  | nil => rfl
  | cons c cs ih =>
    have hne : (c != ']') = true := by
      rw [bne_iff_ne]
      rintro rfl
      exact h List.mem_cons_self
    have hcs : ']' ∉ cs := fun hm => h (List.mem_cons_of_mem _ hm)
    rw [List.cons_append, bareCategory]
    simp [hne, ih hcs]

theorem whole_feature {f : String} (hf : Category.IsFeature f) :
    Whole (Category.printFeature f) := by
  intro rest
  have hrun : ∀ c ∈ f.toList, Category.isFeatureChar c = true := fun c hc =>
    Category.isFeatureChar_iff.mpr (hf.2 c hc)
  have hno : ']' ∉ f.toList := fun hm => by cases hrun _ hm
  have hend : ∀ c ∈ (']' :: rest).head?, Category.isFeatureChar c = false := by
    intro c hc
    cases hc
    rfl
  have hfeature : isFeature (f.toList ++ ']' :: rest) = true := by
    obtain ⟨c, cs, he⟩ := List.exists_cons_of_ne_nil hf.1
    rw [isFeature, takeWhile_run hrun hend, dropWhile_run hrun hend, he]
    rfl
  have htext : Category.printFeature f ++ rest = '[' :: (f.toList ++ ']' :: rest) := by
    simp [Category.printFeature]
  rw [htext, bareCategory]
  simp [hfeature, bareCategory_inFeature hno, Category.printFeature]

theorem whole_print {c : Category} (h : c.Legible) : Whole c.print ∧ Whole c.printOperand := by
  induction c with
  | atom name features =>
    have hname : Whole name.toList := by
      apply whole_run
      intro x hx
      rw [isCategoryChar, Category.isNameChar_iff.mpr (h.1.2 x hx)]
      rfl
    have hfeatures : ∀ fs : List String, (∀ f ∈ fs, Category.IsFeature f) →
        Whole (fs.flatMap Category.printFeature) := by
      intro fs hfs
      induction fs with
      | nil => exact whole_nil
      | cons f fs ih =>
        obtain ⟨hf, hfs⟩ := List.forall_mem_cons.mp hfs
        exact (whole_feature hf).append (ih hfs)
    exact ⟨hname.append (hfeatures features h.2), hname.append (hfeatures features h.2)⟩
  | functor result slash argument ihr iha =>
    have hslash : Whole [slash.symbol] := whole_char (by cases slash <;> rfl)
    have hprint : Whole (Category.functor result slash argument).print :=
      (ihr h.1).2.append (hslash.append (iha h.2).2)
    have hopen : Whole ['('] := whole_char rfl
    have hclose : Whole [')'] := whole_char rfl
    exact ⟨hprint, hopen.append (hprint.append hclose)⟩

theorem visible_of_isAlphanum {c : Char} (h : c.isAlphanum = true) : isWhiteSpace c = false := by
  have hrange : 0x30 ≤ c.toNat ∧ c.toNat ≤ 0x7A := by
    have hkind : (c.isUpper || c.isLower || c.isDigit) = true := h
    rw [Bool.or_eq_true, Bool.or_eq_true] at hkind
    rcases hkind with (hupper | hlower) | hdigit
    · have hbounds : 0x41 ≤ c.toNat ∧ c.toNat ≤ 0x5A := of_decide_eq_true hupper
      omega
    · have hbounds : 0x61 ≤ c.toNat ∧ c.toNat ≤ 0x7A :=
        (Bool.and_eq_true_iff.mp hlower).imp of_decide_eq_true of_decide_eq_true
      omega
    · have hbounds : 0x30 ≤ c.toNat ∧ c.toNat ≤ 0x39 :=
        (Bool.and_eq_true_iff.mp hdigit).imp of_decide_eq_true of_decide_eq_true
      omega
  simp only [isWhiteSpace, Bool.or_eq_false_iff, Bool.and_eq_false_iff, decide_eq_false_iff_not]
  omega

theorem visible_of_isCategoryChar {c : Char} (h : isCategoryChar c = true) :
    isWhiteSpace c = false := by
  have hsigns : ∀ x ∈ [',', '.', ':', ';', '_', '-', '\\', '/', '(', ')', '|'],
      isWhiteSpace x = false :=
    List.forall_iff_forall_mem.mp (by decide)
  rw [isCategoryChar, Bool.or_eq_true, Category.isNameChar_iff, List.contains_iff_mem,
    or_assoc] at h
  rcases h with h | h
  · exact visible_of_isAlphanum h
  · exact hsigns c (List.mem_append.mpr h)

/-- A category has come to its end before these. -/
theorem bareCategory_of_head {rest : List Char}
    (h : ∀ c ∈ rest.head?, isWhiteSpace c = true ∨ c = '=' ∨ c = ']' ∨ c = '}') :
    bareCategory false rest = ([], rest) := by
  cases rest with
  | nil => rfl
  | cons c cs =>
    have hchar : isCategoryChar c = false ∧ c ≠ '[' := by
      rcases h c rfl with hw | rfl | rfl | rfl
      · refine ⟨Bool.eq_false_iff.mpr fun hc => ?_, fun hb => ?_⟩
        · rw [visible_of_isCategoryChar hc] at hw
          cases hw
        · rw [hb] at hw
          cases hw
      all_goals decide
    rw [bareCategory]
    simp [hchar.1, hchar.2]

theorem exists_head_print {c : Category} (h : c.Legible) :
    (∃ x xs, c.print = x :: xs ∧ (Category.isNameChar x = true ∨ x = '(')) ∧
      ∃ x xs, c.printOperand = x :: xs ∧ (Category.isNameChar x = true ∨ x = '(') := by
  induction c with
  | atom name features =>
    obtain ⟨x, xs, he⟩ := List.exists_cons_of_ne_nil h.1.1
    have hx : Category.isNameChar x = true :=
      Category.isNameChar_iff.mpr (h.1.2 x (he ▸ List.mem_cons_self))
    have hprint : (Category.atom name features).print =
        x :: (xs ++ features.flatMap Category.printFeature) := by
      rw [Category.print, he, List.cons_append]
    exact ⟨⟨x, _, hprint, .inl hx⟩, ⟨x, _, hprint, .inl hx⟩⟩
  | functor result slash argument ihr _ =>
    obtain ⟨_, x, xs, he, hx⟩ := ihr h.1
    refine ⟨⟨x, xs ++ slash.symbol :: argument.printOperand, ?_, hx⟩, ⟨'(', _, rfl, .inr rfl⟩⟩
    rw [Category.print_functor, he, List.cons_append]

/-- Where an anchor without quotes has come to its end: a captured variable where its name has, and
otherwise the text, or what stands before white space or before a closing bracket or brace. -/
def EndsAnchor : Option String → List Char → Prop
  | none, rest => ∀ c ∈ rest.head?, isWhiteSpace c = true ∨ c = ']' ∨ c = '}'
  | some var, rest => IsVar var ∧ ∀ c ∈ rest.head?, isVarChar c = false

theorem EndsAnchor.capture_eq {capture : Option String} {rest : List Char}
    (h : EndsAnchor capture rest) :
    Token.capture (spellCapture capture ++ rest) = (capture, rest) := by
  cases capture with
  | none =>
    apply capture_of_head
    rintro c hc rfl
    rcases h '=' hc with he | he | he <;> cases he
  | some var =>
    obtain ⟨⟨c, cs, he, hc, hcs⟩, hend⟩ := h
    have hvar : var? (var.toList ++ rest) = some (var, rest) := by
      rw [he, List.cons_append, var?, if_pos hc, takeWhile_run hcs hend, dropWhile_run hcs hend,
        ← he, String.ofList_toList]
    simp only [spellCapture, List.cons_append, Token.capture, hvar]

theorem EndsAnchor.head {capture : Option String} {rest : List Char}
    (h : EndsAnchor capture rest) : ∀ c ∈ (spellCapture capture ++ rest).head?,
      isWhiteSpace c = true ∨ c = '=' ∨ c = ']' ∨ c = '}' := by
  intro c hc
  cases capture with
  | none => exact (h c hc).imp_right .inr
  | some var =>
    cases hc
    exact .inr (.inl rfl)

theorem base?_category {c : Category} (h : c.Legible) {rest : List Char}
    (hrest : ∀ x ∈ rest.head?, isWhiteSpace x = true ∨ x = '=' ∨ x = ']' ∨ x = '}') :
    base? ('@' :: (c.print ++ rest)) = some (.category (.text c.toText), rest) := by
  have hbare : bareCategory false (c.print ++ rest) = (c.print, rest) := by
    rw [(whole_print h).1, bareCategory_of_head hrest, List.append_nil]
  obtain ⟨⟨x, xs, he, hx⟩, _⟩ := exists_head_print h
  have hmarks : x ≠ '/' ∧ x ≠ '"' := by
    constructor <;> rintro rfl <;> rcases hx with hx | hx <;> cases hx
  rw [he, List.cons_append] at hbare ⊢
  have hregex : regex? (x :: (xs ++ rest)) = none := by
    rw [regex?]
    rintro _ hslash
    cases hslash
    exact hmarks.1 rfl
  have hcategory : category? (x :: (xs ++ rest)) = some (.text c.toText, rest) := by
    simp only [category?, hbare]
    rw [Category.toText, he]
  rw [base?, hregex, quoted?_eq_none hmarks.2, hcategory]
  rfl

/-- Wherever a node is called for, the printed category is one token, with its capture. -/
theorem cut?_category {c : Category} (h : c.Legible) {capture : Option String}
    {rest : List Char} (hrest : EndsAnchor capture rest) {cs : List Char}
    (hcs : skipBlanks cs = '@' :: (c.print ++ (spellCapture capture ++ rest))) :
    cut? true cs =
      (cut? false rest).map (.anchor ⟨.category (.text c.toText), capture⟩ :: ·) := by
  have htok : token? true ('@' :: (c.print ++ (spellCapture capture ++ rest))) =
      some (.anchor ⟨.category (.text c.toText), capture⟩, rest) := by
    change anchor? _ = _
    rw [anchor?, base?_category h hrest.head, Option.map_some]
    simp only [hrest.capture_eq]
  refine cut?_of_token? hcs htok ?_
  simp only [List.length_append]
  omega

section

variable [RegexEngine]

/-- The anchor, bound to a variable if there is one. -/
def capturing (a : Anchor) : Option String → Anchor
  | none => a
  | some var => .capture a var

theorem resolve_category (text : String) (capture : Option String) :
    (Phrase.anchor ⟨.category (.text text), capture⟩).resolve =
      .ok (.ofAnchor (capturing (.category text) capture)) := by
  cases capture <;> rfl

/-- The printed category with its capture is a query of its own. -/
theorem parse_category {c : Category} (h : c.Legible) {capture : Option String}
    (hcapture : EndsAnchor capture []) :
    Pattern.parse (String.ofList ('@' :: (c.print ++ spellCapture capture))) =
      .ok (.ofAnchor (capturing (.category c.toText) capture)) := by
  have hvisible : skipBlanks ('@' :: (c.print ++ spellCapture capture)) =
      '@' :: (c.print ++ (spellCapture capture ++ [])) := by
    rw [List.append_nil]
    exact skipBlanks_of_visible fun x hx => by cases hx; rfl
  have hcut : Token.cut? true ('@' :: (c.print ++ spellCapture capture)) =
      some [.anchor ⟨.category (.text c.toText), capture⟩] := by
    rw [cut?_category h hcapture hvisible, cut?_nil]
    rfl
  rw [Pattern.parse, String.toList_ofList, NodePhrase.ofText?, hcut]
  cases capture <;> rfl

section Meaning

variable {t : Tree} {id : NodeId} {n : Node}

theorem test_category (hn : t.get? id = some n) (text : String) (s : Bindings) :
    (Anchor.category text).test t id s =
      ⟨.ok ((n.category.map Category.toText) == some text), s⟩ := by
  rw [Anchor.test_of_get hn]
  rfl

theorem test_sameAs (hn : t.get? id = some n) {s : Bindings} {var : String} {m : NodeId}
    (hvar : s.lookup? var = some m) {bound : Node} (hbound : t.get? m = some bound) :
    (Anchor.sameAs var).test t id s = ⟨.ok (bound.agrees n.toMark), s⟩ := by
  rw [Anchor.test_of_get hn, Anchor.testNode, Anchor.sameAsTest, hvar]
  simp only [Tree.get, hbound]

theorem test_category_of_some (hn : t.get? id = some n) {c d : Category} (hc : c.Legible)
    (hd : d.Legible) (hcategory : n.category = some d) (s : Bindings) :
    (Anchor.category c.toText).test t id s = ⟨.ok (decide (d = c)), s⟩ := by
  have he : (some d.toText == some c.toText) = decide (d = c) := by
    rw [Bool.eq_iff_iff, beq_iff_eq, Option.some_inj, decide_eq_true_eq, Category.toText_inj hd hc]
  rw [test_category hn, hcategory, Option.map_some, he]

theorem test_category_of_none (hn : t.get? id = some n) (hnone : n.category = none)
    (text : String) (s : Bindings) :
    (Anchor.category text).test t id s = ⟨.ok false, s⟩ := by
  rw [test_category hn, hnone]
  rfl

/-- To compare with a node of the category is to ask for the category. -/
theorem test_sameAs_eq (hn : t.get? id = some n) {c : Category} (hc : c.Legible)
    (hd : ∀ d ∈ n.category, d.Legible) {s : Bindings} {var : String} {m : NodeId} {bound : Node}
    (hvar : s.lookup? var = some m) (hbound : t.get? m = some bound)
    (hcategory : bound.category = some c) :
    (Anchor.sameAs var).test t id s = (Anchor.category c.toText).test t id s := by
  rw [test_sameAs hn hvar hbound]
  cases hown : n.category with
  | none =>
    rw [test_category_of_none hn hown]
    simp [Mark.agrees, hcategory, hown]
  | some d =>
    rw [test_category_of_some hn hc (hd d hown) hown]
    simp [Mark.agrees, hcategory, hown, eq_comm]

end Meaning

/-- The printed form of a category is one anchor in a query, without quotes, and ends where the
category ends. It holds of the nodes with that category and of no others, as does the comparison
with any node that has it. -/
theorem category_anchor {s : String} {c : Category} (h : Category.parse s = .ok c) :
    (∀ capture rest, EndsAnchor capture rest → ∀ cs,
      skipBlanks cs = '@' :: (c.print ++ (spellCapture capture ++ rest)) →
      cut? true cs =
        (cut? false rest).map (.anchor ⟨.category (.text c.toText), capture⟩ :: ·)) ∧
    (∀ capture, (Phrase.anchor ⟨.category (.text c.toText), capture⟩).resolve =
      .ok (.ofAnchor (capturing (.category c.toText) capture))) ∧
    (∀ capture, EndsAnchor capture [] →
      Pattern.parse (String.ofList ('@' :: (c.print ++ spellCapture capture))) =
        .ok (.ofAnchor (capturing (.category c.toText) capture))) ∧
    ∀ t id n, Tree.get? t id = some n → ∀ b : Bindings,
      (∀ s' d, Category.parse s' = .ok d → n.category = some d →
        (Anchor.category c.toText).test t id b = ⟨.ok (decide (d = c)), b⟩) ∧
      (n.category = none → (Anchor.category c.toText).test t id b = ⟨.ok false, b⟩) ∧
      ∀ var m bound, b.lookup? var = some m → t.get? m = some bound → bound.category = some c →
        (∀ d ∈ n.category, ∃ s', Category.parse s' = .ok d) →
        (Anchor.sameAs var).test t id b = (Anchor.category c.toText).test t id b := by
  have hc : c.Legible := Category.legible_of_parse h
  refine ⟨fun _ _ hrest _ hcs => cut?_category hc hrest hcs, resolve_category c.toText,
    fun _ hcapture => parse_category hc hcapture, fun t id n hn b => ⟨?_, ?_, ?_⟩⟩
  · exact fun _ _ hd hown => test_category_of_some hn hc (Category.legible_of_parse hd) hown b
  · exact fun hnone => test_category_of_none hn hnone _ b
  · intro var m bound hvar hbound hcategory hd
    refine test_sameAs_eq hn hc (fun d hown => ?_) hvar hbound hcategory
    obtain ⟨_, hd⟩ := hd d hown
    exact Category.legible_of_parse hd

end

/-- The category of a transitive verb. -/
def verb : Category :=
  .functor (.functor (.atom "S" ["dcl"]) .backward (.atom "NP" [])) .forward (.atom "NP" [])

/-- A clause over a verb and a noun phrase without a category. -/
def verbClause : Tree where
  nodes := #[
    ⟨{ Mark.bare "S" with category := some (.atom "S" ["dcl"]) }, 0, none, [1, 2]⟩,
    ⟨{ Mark.bare "V" with word := some "saw", category := some verb }, 1, some 0, []⟩,
    ⟨{ Mark.bare "NP" with word := some "stars" }, 2, some 0, []⟩]
  root := some 0

theorem category_anchor_verb :
    Category.parse "(S[dcl]\\NP)/NP" = .ok verb ∧
      cut? true "@(S[dcl]\\NP)/NP=V ]".toList =
        some [.anchor ⟨.category (.text "(S[dcl]\\NP)/NP"), some "V"⟩, .closeBracket] ∧
      Pattern.parse "@(S[dcl]\\NP)/NP" = .ok (.ofAnchor (.category "(S[dcl]\\NP)/NP")) ∧
      ∃ b : Bindings, b.lookup? "V" = some 1 ∧
        ((Anchor.category "(S[dcl]\\NP)/NP").test verbClause 1 b = ⟨.ok true, b⟩ ∧
          (Anchor.category "(S[dcl]\\NP)/NP").test verbClause 0 b = ⟨.ok false, b⟩ ∧
          (Anchor.category "(S[dcl]\\NP)/NP").test verbClause 2 b = ⟨.ok false, b⟩) ∧
        (Anchor.sameAs "V").test verbClause 0 b =
          (Anchor.category "(S[dcl]\\NP)/NP").test verbClause 0 b := by
  have hparse : Category.parse "(S[dcl]\\NP)/NP" = .ok verb := by decide +kernel
  have hsentence : Category.parse "S[dcl]" = .ok (.atom "S" ["dcl"]) := by decide +kernel
  have htext : verb.toText = "(S[dcl]\\NP)/NP" := by decide +kernel
  obtain ⟨hcut, _, hquery, htest⟩ := category_anchor hparse
  rw [htext] at hcut hquery htest
  have hends : EndsAnchor (some "V") [' ', ']'] :=
    ⟨⟨'V', [], by decide +kernel, rfl, nofun⟩, fun c hc => by cases hc; rfl⟩
  have hbracket : cut? false [' ', ']'] = some [.closeBracket] := by decide +kernel
  refine ⟨hparse, ?_, ?_, .bind .empty "V" 1, rfl, ⟨?_, ?_, ?_⟩, ?_⟩
  · rw [hcut (some "V") _ hends _ (by decide +kernel), hbracket]
    rfl
  · exact hquery none nofun
  · exact (htest verbClause 1 _ rfl _).1 _ _ hparse rfl
  · exact (htest verbClause 0 _ rfl _).1 _ _ hsentence rfl
  · exact (htest verbClause 2 _ rfl _).2.1 rfl
  · exact (htest verbClause 0 _ rfl _).2.2 "V" 1 _ rfl rfl rfl fun d hd =>
      ⟨"S[dcl]", by cases hd; exact hsentence⟩

end TreeQuery.Query
