import TreeQuery.Proofs.Query.CategoryAnchors
import TreeQuery.Proofs.Query.Grammar

namespace TreeQuery.Query

open Text Grammar
open Grammar.Expr (any sign oneOf)
open Rule (structural body)
open Token (isVarStart isVarChar isOperatorChar isCategoryChar)

variable {cs rest : List Char} {e f : Expr Rule}

theorem takesRun_var : TakesRun rules .var isVarStart isVarChar := by
  have hstart := computes_either (computes_char (g := rules) Char.isAlpha) (computes_sign '_')
  have hmore := computes_either (computes_char (g := rules) Char.isAlphanum) (computes_sign '_')
  exact takesRun rfl hstart hmore

theorem takesRun_operator : TakesRun rules .operator isOperatorChar isOperatorChar := by
  have hclass := computes_either (computes_char (g := rules) Char.isDigit)
    (computes_char ['<', '>', '.', '$', '&', '#', '%'].contains)
  exact takesRun (e := .choice _ _) rfl hclass hclass

theorem takesRun_bare : TakesRun rules .bare isBareStart isBareChar := by
  have hstructural : Computes rules structural (readChar isStructural) := computes_char _
  have hintroducer : Computes rules (oneOf ['$', '&', '#', '.', '*', '/', '^', '@', '"', '?', '%'])
    (readChar isIntroducer) := computes_char _
  have hmarks := computes_either hstructural hintroducer
  have hstart := computes_other (computes_either hmarks computes_blank)
  have hmore := computes_other (computes_either hstructural computes_blank)
  apply (takesRun rfl hstart hmore).congr
  intro cs
  have hs : (fun c => !((isStructural c || isIntroducer c) || isBlank c)) = isBareStart := by
    funext c
    cases hx : isStructural c <;> cases hy : isIntroducer c <;>
      simp [isBareStart, isBareChar, hx, hy]
  have hm : (fun c => !(isStructural c || isBlank c)) = isBareChar := by
    funext c
    simp [isBareChar]
  rw [hs, hm]

section Body

variable {d : Char}

/-- What one turn through a text in front of a delimiter leaves. -/
def bodyStep (d : Char) : List Char → Option (List Char)
  | [] => none
  | '\\' :: _ :: cs => some cs
  | c :: cs => if c = d then none else some cs

theorem computes_bodyStep (hd : d ≠ '\\') :
    Computes rules (.choice (.seq (sign '\\') any) (.seq (.not (sign d)) any)) fun cs =>
      (bodyStep d cs).map fun rest => ([], rest) := by
  have hescaped := (computes_sign (g := rules) '\\').seq computes_any
  apply (hescaped.choice (computes_other (computes_sign d))).congr
  intro cs
  fun_cases bodyStep d cs with
  | case1 => rfl
  | case2 c cs => rfl
  | case3 cs hno =>
    have hb : ¬(d = '\\') := hd
    simp [readChoice, readSeq, readChar, hb]
  | case4 c cs hno hc =>
    by_cases hb : c = '\\'
    · cases cs with
      | nil =>
        have hne : '\\' ≠ d := hd.symm
        simp [readChoice, readSeq, readChar, hb, hne]
      | cons c' cs' => exact absurd rfl (hno c' cs' hb)
    · simp [readChoice, readSeq, readChar, hb, hc]

/-- What is left where a text in front of a delimiter ends. -/
def bodyEnd (d : Char) (cs : List Char) : List Char :=
  match Quoted.body? d cs with
  | some (_, rest) => d :: rest
  | none => []

theorem bodyEnd_of_map {cs cs' : List Char} {f : List Char × List Char → List Char × List Char}
    (h : Quoted.body? d cs = (Quoted.body? d cs').map f) (hf : ∀ x, (f x).2 = x.2) :
    bodyEnd d cs = bodyEnd d cs' := by
  rw [bodyEnd, bodyEnd, h]
  cases Quoted.body? d cs' with
  | none => rfl
  | some x => exact congrArg (d :: ·) (hf x)

theorem computes_body (hd : d ≠ '\\') :
    Computes rules (body d) fun cs => some ([], bodyEnd d cs) := by
  apply (computes_bodyStep hd).many (m := fun cs => ([], bodyEnd d cs))
  · intro cs h
    rw [Option.map_eq_none_iff] at h
    fun_cases bodyStep d cs with
    | case1 => rfl
    | case2 c cs => cases h
    | case3 cs hno => simp [bodyEnd, Quoted.body?_delimiter hd]
    | case4 c cs hno hc => simp [bodyStep, hc] at h
  · intro cs ts mid h
    obtain ⟨left, hstep, he⟩ := Option.map_eq_some_iff.mp h
    cases he
    fun_cases bodyStep d cs with
    | case1 => cases hstep
    | case2 c cs =>
      cases hstep
      refine ⟨by simp only [List.length_cons]; omega, ?_⟩
      rw [bodyEnd_of_map (Quoted.body?_escaped c mid) fun _ => rfl]
      rfl
    | case3 cs hno => simp [bodyStep] at hstep
    | case4 c cs hno hc =>
      have hcs : cs = mid := by simpa [bodyStep, hc] using hstep
      have hbody : Quoted.body? d (c :: cs) =
          (Quoted.body? d cs).map fun x => (c :: x.1, x.2) := by
        rw [Quoted.body?, if_neg hc]
        exact hno
      subst cs
      refine ⟨Nat.lt_succ_self _, ?_⟩
      rw [bodyEnd_of_map hbody fun _ => rfl]
      rfl

theorem parses_body {r : Rule} (hr : rules r = ⟨.token, body d⟩) (hd : d ≠ '\\')
    {text : List Char} (h : Quoted.body? d cs = some (text, rest)) :
    Parses rules (.rule r) cs (some ([.node r (.ofList text) []], d :: rest)) := by
  have hbody : Computes rules (rules r).body fun cs => some ([], bodyEnd d cs) := by
    rw [hr]
    exact computes_body hd
  apply hbody.rule.parses
  have hend : bodyEnd d cs = d :: rest := by simp [bodyEnd, h]
  rw [readRule, hr, Option.map_some, hend, Quoted.eq_append_of_body? h, taken_append]
  rfl

/-- Without a delimiter the text goes on to the end. -/
theorem parses_body_open {r : Rule} (hr : rules r = ⟨.token, body d⟩) (hd : d ≠ '\\')
    (h : Quoted.body? d cs = none) : ∃ ts, Parses rules (.rule r) cs (some (ts, [])) := by
  have hbody : Computes rules (rules r).body fun cs => some ([], bodyEnd d cs) := by
    rw [hr]
    exact computes_body hd
  have hend : bodyEnd d cs = [] := by simp [bodyEnd, h]
  have hparses := hbody.rule cs
  rw [readRule, Option.map_some, hend] at hparses
  exact ⟨_, hparses⟩

end Body

/-- What a feature in brackets leaves. -/
def featureRest? (cs : List Char) : Option (List Char) :=
  (Category.Token.feature? cs).map Prod.snd

theorem featureRest?_eq_some {rest : List Char} : featureRest? cs = some rest ↔
    ∃ name, Category.IsFeature name ∧ cs = Category.printFeature name ++ rest := by
  rw [featureRest?, Option.map_eq_some_iff]
  constructor
  · intro ⟨x, hx, he⟩
    subst rest
    exact ⟨x.1, Category.Token.feature?_eq_some.mp hx⟩
  · intro ⟨name, h⟩
    exact ⟨(name, rest), Category.Token.feature?_eq_some.mpr h, rfl⟩

theorem featureRest?_of_head {c : Char} (h : c ≠ '[') (cs : List Char) :
    featureRest? (c :: cs) = none := by
  rw [Option.eq_none_iff_forall_ne_some]
  intro rest hrest
  obtain ⟨name, _, he⟩ := featureRest?_eq_some.mp hrest
  simp only [Category.printFeature, List.cons_append, List.cons.injEq] at he
  exact h he.1

theorem computes_catFeature : Computes rules (.rule .catFeature) fun cs =>
    (featureRest? cs).map fun rest => ([], rest) := by
  have hclass := computes_either (computes_char (g := rules) Char.isAlphanum)
    (computes_char ['_', '-'].contains)
  have hname := hclass.seq (computes_run hclass)
  have hbody := (computes_sign '[').seq (hname.seq (computes_sign ']'))
  have hfeature : (fun c => c.isAlphanum || ['_', '-'].contains c) = Category.isFeatureChar := by
    funext c
    simp [Category.isFeatureChar, Bool.or_assoc]
  rw [hfeature] at hbody
  have hrule : Computes rules (rules .catFeature).body _ := hbody
  apply hrule.rule.congr
  intro cs
  cases cs with
  | nil => rfl
  | cons c cs =>
    by_cases hc : c = '['
    · subst c
      cases cs with
      | nil => rfl
      | cons d cs =>
        cases hd : Category.isFeatureChar d with
        | false =>
          simp [readRule, readSeq, readChar, hd, featureRest?, Category.Token.feature?]
        | true =>
          cases hrest : cs.dropWhile Category.isFeatureChar with
          | nil =>
            simp [readRule, readSeq, readChar, hd, hrest, featureRest?, Category.Token.feature?]
          | cons e rest =>
            by_cases he : e = ']'
            · simp [readRule, readSeq, readChar, hd, hrest, he, featureRest?,
                Category.Token.feature?, Kind.trees, rules]
            · simp [readRule, readSeq, readChar, hd, hrest, he, featureRest?,
                Category.Token.feature?]
    · simp [readRule, readSeq, readChar, hc, featureRest?_of_head hc]

theorem isFeature_iff {cs : List Char} :
    Token.isFeature cs = true ↔ ∃ rest, featureRest? ('[' :: cs) = some rest := by
  rw [Token.isFeature, featureRest?, Category.Token.feature?]
  cases cs.takeWhile Category.isFeatureChar with
  | nil => simp
  | cons c name =>
    cases cs.dropWhile Category.isFeatureChar with
    | nil => simp
    | cons d rest =>
      by_cases hd : d = ']'
      · simp [hd]
      · simp [hd]

theorem bareCategory_append (inFeature : Bool) (cs : List Char) :
    cs = (Token.bareCategory inFeature cs).1 ++ (Token.bareCategory inFeature cs).2 := by
  induction cs generalizing inFeature with
  | nil => rfl
  | cons c cs ih =>
    rw [Token.bareCategory]
    split
    · simp [← ih]
    · split
      · simp [← ih]
      · split
        · simp [← ih]
        · rfl

def charRest? (p : Char → Bool) : List Char → Option (List Char)
  | c :: cs => if p c then some cs else none
  | [] => none

theorem readChar_eq (p : Char → Bool) (cs : List Char) :
    readChar p cs = ((charRest? p cs).map fun rest => ([], rest) : Grammar.Outcome Rule) := by
  cases cs with
  | nil => rfl
  | cons c cs => cases hc : p c <;> simp [readChar, charRest?, hc]

/-- One turn through a category without quotes. -/
def categoryStep (cs : List Char) : Option (List Char) :=
  (featureRest? cs).or (charRest? isCategoryChar cs)

theorem bareCategory_of_step_none {cs : List Char} (h : categoryStep cs = none) :
    Token.bareCategory false cs = ([], cs) := by
  obtain ⟨hfeature, hchar⟩ := Option.or_eq_none_iff.mp h
  cases cs with
  | nil => rfl
  | cons c cs =>
    have hc : isCategoryChar c = false := by
      cases hc : isCategoryChar c with
      | false => rfl
      | true => simp [charRest?, hc] at hchar
    have hno : ¬(c = '[' ∧ Token.isFeature cs = true) := by
      intro ⟨hb, hf⟩
      subst c
      obtain ⟨rest, hrest⟩ := isFeature_iff.mp hf
      rw [hfeature] at hrest
      cases hrest
    rw [Token.bareCategory]
    simp [hc, hno]

theorem bareCategory_of_step {cs mid : List Char} (h : categoryStep cs = some mid) :
    mid.length < cs.length ∧
      (Token.bareCategory false cs).2 = (Token.bareCategory false mid).2 := by
  rcases Option.or_eq_some_iff.mp h with hf | ⟨_, hchar⟩
  · obtain ⟨name, hname, hcs⟩ := featureRest?_eq_some.mp hf
    subst cs
    rw [whole_feature hname]
    simp [Category.printFeature]
    omega
  · cases cs with
    | nil => cases hchar
    | cons c cs =>
      by_cases hc : isCategoryChar c = true
      · simp only [charRest?, hc, ↓reduceIte, Option.some.injEq] at hchar
        subst mid
        have hwhole := whole_char hc cs
        rw [List.singleton_append] at hwhole
        rw [hwhole]
        simp
      · simp [charRest?, hc] at hchar

theorem computes_categoryStep : Computes rules (.choice (.rule .catFeature)
    (.choice (.char Char.isAlphanum)
      (oneOf ['\\', '/', '(', ')', '|', ',', ':', ';', '_', '-', '.']))) fun cs =>
    (categoryStep cs).map fun rest => ([], rest) := by
  have hclass := computes_either (computes_char (g := rules) Char.isAlphanum)
    (computes_char ['\\', '/', '(', ')', '|', ',', ':', ';', '_', '-', '.'].contains)
  have hchar : (fun c => c.isAlphanum ||
      ['\\', '/', '(', ')', '|', ',', ':', ';', '_', '-', '.'].contains c) = isCategoryChar := by
    funext c
    apply Bool.eq_iff_iff.mpr
    simp [isCategoryChar, Category.isNameChar]
    grind
  rw [hchar] at hclass
  apply (computes_catFeature.choice hclass).congr
  intro cs
  rw [categoryStep, readChoice, readChar_eq]
  cases featureRest? cs <;> rfl

/-- What is left is shorter than a text that a category begins. -/
theorem bareCategory_ne_nil {cs mid : List Char} (h : categoryStep cs = some mid) :
    (Token.bareCategory false cs).1 ≠ [] := by
  intro hnil
  obtain ⟨hlt, heq⟩ := bareCategory_of_step h
  have hcs := congrArg List.length (bareCategory_append false cs)
  have hmid := congrArg List.length (bareCategory_append false mid)
  rw [hnil, heq] at hcs
  simp only [List.length_append, List.length_nil] at hcs hmid
  omega

theorem computes_catBare : Computes rules (.rule .catBare) fun cs =>
    if (Token.bareCategory false cs).1 = [] then none
    else some ([.node .catBare (.ofList (Token.bareCategory false cs).1) []],
      (Token.bareCategory false cs).2) := by
  have hmany := computes_categoryStep.many (m := fun cs => ([], (Token.bareCategory false cs).2))
    (fun cs h => by rw [bareCategory_of_step_none (Option.map_eq_none_iff.mp h)])
    (fun cs ts mid h => by
      obtain ⟨rest, hrest, he⟩ := Option.map_eq_some_iff.mp h
      cases he
      obtain ⟨hlt, heq⟩ := bareCategory_of_step hrest
      exact ⟨hlt, by rw [heq]; rfl⟩)
  have hbody : Computes rules (rules .catBare).body _ := computes_categoryStep.seq hmany
  apply hbody.rule.congr
  intro cs
  rw [readRule, readSeq]
  cases h : categoryStep cs with
  | none =>
    rw [bareCategory_of_step_none h]
    rfl
  | some mid =>
    have htaken : taken cs (Token.bareCategory false cs).2 =
        .ofList (Token.bareCategory false cs).1 := by
      have happend := taken_append (Token.bareCategory false cs).1 (Token.bareCategory false cs).2
      rwa [← bareCategory_append] at happend
    rw [if_neg (bareCategory_ne_nil h), ← htaken, (bareCategory_of_step h).2]
    rfl

end TreeQuery.Query
