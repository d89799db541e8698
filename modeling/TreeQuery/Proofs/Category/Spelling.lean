import Mathlib.Data.List.Basic
import TreeQuery.Category.Reader
import TreeQuery.Proofs.Text.Runs

namespace TreeQuery.Category

/-- A name is a nonempty run of ASCII letters, ASCII digits and a few signs. -/
def IsName (s : String) : Prop :=
  s.toList ≠ [] ∧ ∀ c ∈ s.toList, c.isAlphanum = true ∨ c ∈ [',', '.', ':', ';', '_', '-']

def IsFeature (s : String) : Prop :=
  s.toList ≠ [] ∧ ∀ c ∈ s.toList, c.isAlphanum = true ∨ c ∈ ['_', '-']

/-- What can be written: a single operand, or operands with slashes between them. -/
inductive Level
  | operand
  | chain

/-- The text is a way to write the category. A chain belongs together from the left, parentheses
make any chain an operand, and the characters of `gap` may surround operands. -/
inductive Spells (gap : Char → Prop) : Level → Category → List Char → Prop
  | atom {name features} : IsName name → (∀ f ∈ features, IsFeature f) →
      Spells gap .operand (atom name features) (name.toList ++ features.flatMap printFeature)
  | parens {c cs} : Spells gap .chain c cs → Spells gap .operand c (inParens cs)
  | single {c cs before after} : (∀ x ∈ before, gap x) → (∀ x ∈ after, gap x) →
      Spells gap .operand c cs → Spells gap .chain c (before ++ cs ++ after)
  | functor {r slash a rs as before after} : (∀ x ∈ before, gap x) → (∀ x ∈ after, gap x) →
      Spells gap .chain r rs → Spells gap .operand a as →
      Spells gap .chain (functor r slash a) (rs ++ slash.symbol :: (before ++ as ++ after))

/-- Written without anything between the tokens. -/
abbrev Tight : Level → Category → List Char → Prop :=
  Spells fun _ => False

theorem Tight.single {c : Category} {cs : List Char} (h : Tight .operand c cs) :
    Tight .chain c cs := by
  have hnone : ∀ x ∈ ([] : List Char), False := fun _ hx => absurd hx List.not_mem_nil
  simpa using Spells.single hnone hnone h

theorem Tight.functor {r a : Category} {rs as : List Char} (hr : Tight .chain r rs)
    (slash : Slash) (ha : Tight .operand a as) :
    Tight .chain (functor r slash a) (rs ++ slash.symbol :: as) := by
  have hnone : ∀ x ∈ ([] : List Char), False := fun _ hx => absurd hx List.not_mem_nil
  have hspells : Tight .chain (Category.functor r slash a)
      (rs ++ slash.symbol :: ([] ++ as ++ [])) := Spells.functor hnone hnone hr ha
  simpa using hspells

theorem isNameChar_iff {c : Char} :
    isNameChar c = true ↔ c.isAlphanum = true ∨ c ∈ [',', '.', ':', ';', '_', '-'] := by
  simp [isNameChar, or_assoc]

theorem isFeatureChar_iff {c : Char} :
    isFeatureChar c = true ↔ c.isAlphanum = true ∨ c ∈ ['_', '-'] := by
  simp [isFeatureChar, or_assoc]

/-- What may follow an operand, if anything does. -/
def Ends (rest : List Char) : Prop :=
  ∀ c ∈ rest.head?, c = ')' ∨ ∃ slash : Slash, c = slash.symbol

theorem ends_slash (slash : Slash) (rest : List Char) : Ends (slash.symbol :: rest) := by
  intro c hc
  cases hc
  exact .inr ⟨slash, rfl⟩

theorem ends_paren (rest : List Char) : Ends (')' :: rest) := by
  intro c hc
  cases hc
  exact .inl rfl

theorem Ends.head {rest : List Char} (h : Ends rest) :
    ∀ c ∈ rest.head?, isNameChar c = false ∧ c ≠ '[' := by
  intro c hc
  rcases h c hc with rfl | ⟨slash, rfl⟩
  · decide
  · cases slash <;> decide

namespace Token

def text : Token → List Char
  | atom name features => name.toList ++ features.flatMap printFeature
  | slash s => [s.symbol]
  | openParen => ['(']
  | closeParen => [')']

/-- A token that can be written. -/
def Legible : Token → Prop
  | atom name features => IsName name ∧ ∀ f ∈ features, IsFeature f
  | _ => True

def isAtom : Token → Bool
  | atom _ _ => true
  | _ => false

variable {cs rest : List Char}

theorem feature?_eq_some {name : String} :
    feature? cs = some (name, rest) ↔ IsFeature name ∧ cs = printFeature name ++ rest := by
  constructor
  · intro h
    unfold feature? at h
    split at h
    · rename_i cs
      have hrun : ∀ c ∈ cs.takeWhile isFeatureChar, isFeatureChar c = true :=
        List.all_eq_true.mp List.all_takeWhile
      have hcut := List.takeWhile_append_dropWhile (p := isFeatureChar) (l := cs)
      split at h
      · cases h
      · rename_i hdrop hne
        cases h
        rw [IsFeature, printFeature, String.toList_ofList]
        refine ⟨⟨hne, fun c hc => isFeatureChar_iff.mp (hrun c hc)⟩, ?_⟩
        rw [hdrop] at hcut
        simp [hcut]
      · cases h
    · cases h
  · rintro ⟨⟨hne, hchars⟩, rfl⟩
    have hrun : ∀ c ∈ name.toList, isFeatureChar c = true := fun c hc =>
      isFeatureChar_iff.mpr (hchars c hc)
    have hend : ∀ c ∈ (']' :: rest).head?, isFeatureChar c = false := by
      intro c hc
      cases hc
      rfl
    have htext : printFeature name ++ rest = '[' :: (name.toList ++ ']' :: rest) := by
      simp [printFeature]
    rw [htext, feature?, Text.takeWhile_run hrun hend, Text.dropWhile_run hrun hend]
    cases hname : name.toList with
    | nil => exact absurd hname hne
    | cons c tail => simp [← hname]

theorem features_of_some {name : String} (h : feature? cs = some (name, rest)) :
    features cs = (name :: (features rest).1, (features rest).2) := by
  rw [features]
  split
  · rename_i he
    rw [h] at he
    cases he
    rfl
  · rename_i he
    rw [h] at he
    cases he

theorem features_of_none (h : feature? cs = none) : features cs = ([], cs) := by
  rw [features]
  split
  · rename_i he
    rw [h] at he
    cases he
  · rfl

theorem features_append {fs : List String} (hfs : ∀ f ∈ fs, IsFeature f)
    (h : rest.head? ≠ some '[') : features (fs.flatMap printFeature ++ rest) = (fs, rest) := by
  induction fs with
  | nil =>
    apply features_of_none
    cases rest with
    | nil => rfl
    | cons c rest =>
      have hc : c ≠ '[' := fun he => h (congrArg some he)
      unfold feature?
      simp [hc]
  | cons f fs ih =>
    obtain ⟨hf, hrest⟩ := List.forall_mem_cons.mp hfs
    rw [List.flatMap_cons, List.append_assoc, features_of_some (feature?_eq_some.mpr ⟨hf, rfl⟩),
      ih hrest]

theorem features_spelled (cs : List Char) :
    (∀ f ∈ (features cs).1, IsFeature f) ∧
      cs = (features cs).1.flatMap printFeature ++ (features cs).2 := by
  induction cs using features.induct with
  | case1 cs name rest h names rest' _ ih =>
    obtain ⟨hfs, he⟩ := ih
    obtain ⟨hname, rfl⟩ := feature?_eq_some.mp h
    rw [features_of_some h]
    refine ⟨List.forall_mem_cons.mpr ⟨hname, hfs⟩, ?_⟩
    rw [List.flatMap_cons, List.append_assoc, ← he]
  | case2 cs h =>
    rw [features_of_none h]
    exact ⟨fun f hf => absurd hf List.not_mem_nil, rfl⟩

theorem ofSymbol?_eq_some {c : Char} {slash : Slash} :
    Slash.ofSymbol? c = some slash ↔ c = slash.symbol := by
  constructor
  · intro h
    unfold Slash.ofSymbol? at h
    split at h <;> cases h <;> rfl
  · rintro rfl
    cases slash <;> rfl

/-- What is cut off is a token that can be written, and its text. -/
theorem next?_spelled {tok : Token} (h : next? cs = some (tok, rest)) :
    tok.Legible ∧ cs = tok.text ++ rest := by
  unfold next? at h
  split at h
  · cases h
  · cases h
    exact ⟨trivial, rfl⟩
  · cases h
    exact ⟨trivial, rfl⟩
  · rename_i c cs _ _
    split at h
    · rename_i slash hs
      cases h
      rw [ofSymbol?_eq_some.mp hs]
      exact ⟨trivial, rfl⟩
    · have hrun : ∀ d ∈ (c :: cs).takeWhile isNameChar, isNameChar d = true :=
        List.all_eq_true.mp List.all_takeWhile
      have hcut := List.takeWhile_append_dropWhile (p := isNameChar) (l := c :: cs)
      split at h
      · cases h
      · rename_i hne
        obtain ⟨hfs, he⟩ := features_spelled ((c :: cs).dropWhile isNameChar)
        cases h
        refine ⟨⟨⟨?_, ?_⟩, hfs⟩, ?_⟩
        · rw [String.toList_ofList]
          exact hne
        · rw [String.toList_ofList]
          exact fun d hd => isNameChar_iff.mp (hrun d hd)
        · rw [text, String.toList_ofList, List.append_assoc, ← he, hcut]

/-- A character that may stand in a name begins an atom. -/
theorem next?_name {c : Char} (hc : isNameChar c = true) (cs : List Char) :
    next? (c :: cs) =
      some (atom (String.ofList ((c :: cs).takeWhile isNameChar))
        (features ((c :: cs).dropWhile isNameChar)).1,
        (features ((c :: cs).dropWhile isNameChar)).2) := by
  have ho : c ≠ '(' := by
    rintro rfl
    cases hc
  have hclose : c ≠ ')' := by
    rintro rfl
    cases hc
  have hs : Slash.ofSymbol? c = none := by
    cases hs : Slash.ofSymbol? c with
    | none => rfl
    | some slash =>
      rw [ofSymbol?_eq_some.mp hs] at hc
      cases slash <;> cases hc
  unfold next?
  simp [hs, hc]

/-- A token is cut off where it ends. -/
theorem next?_text {tok : Token} (h : tok.Legible) (hrest : tok.isAtom = true → Ends rest) :
    next? (tok.text ++ rest) = some (tok, rest) := by
  cases tok with
  | openParen => rfl
  | closeParen => rfl
  | slash s => cases s <;> rfl
  | atom name fs =>
    obtain ⟨⟨hne, hchars⟩, hfs⟩ := h
    have hend := (hrest rfl).head
    have hrun : ∀ c ∈ name.toList, isNameChar c = true := fun c hc =>
      isNameChar_iff.mpr (hchars c hc)
    have hafter : ∀ c ∈ (fs.flatMap printFeature ++ rest).head?, isNameChar c = false := by
      intro c hc
      cases fs with
      | nil => exact (hend c hc).1
      | cons f fs =>
        cases hc
        rfl
    have hfeatures : features (fs.flatMap printFeature ++ rest) = (fs, rest) :=
      features_append hfs fun he => (hend '[' he).2 rfl
    have htake := Text.takeWhile_run hrun hafter
    have hdrop := Text.dropWhile_run hrun hafter
    obtain ⟨c, tail, hname⟩ := List.exists_cons_of_ne_nil hne
    have hc : isNameChar c = true := hrun c (by rw [hname]; exact List.mem_cons_self)
    rw [text, List.append_assoc]
    rw [hname, List.cons_append] at htake hdrop ⊢
    rw [next?_name hc, htake, hdrop, hfeatures, ← hname, String.ofList_toList]

theorem length_text_pos {tok : Token} (h : tok.Legible) : 0 < tok.text.length := by
  cases tok with
  | openParen => exact Nat.one_pos
  | closeParen => exact Nat.one_pos
  | slash s => exact Nat.one_pos
  | atom name fs =>
    have hlt := List.length_pos_of_ne_nil h.1.1
    rw [text, List.length_append]
    omega

theorem cut?_text {tok : Token} (h : tok.Legible) (hrest : tok.isAtom = true → Ends rest) :
    cut? (tok.text ++ rest) = (cut? rest).map (tok :: ·) := by
  have hpos := length_text_pos h
  have hne : (tok.text ++ rest).isEmpty = false := by
    cases htext : tok.text with
    | nil => simp [htext] at hpos
    | cons c cs => rfl
  have hlt : rest.length < (tok.text ++ rest).length := by
    rw [List.length_append]
    omega
  rw [cut?, if_neg (by simp [hne]), next?_text h hrest]
  exact if_pos hlt

/-- A text is cut into its tokens, one after the other. -/
theorem cut?_spelled {ts : List Token} (h : cut? cs = some ts) :
    cs = ts.flatMap text ∧ ∀ tok ∈ ts, tok.Legible := by
  induction cs using cut?.induct generalizing ts with
  | case1 cs hnil =>
    rw [cut?, if_pos hnil] at h
    cases h
    exact ⟨List.isEmpty_iff.mp hnil, fun tok htok => absurd htok List.not_mem_nil⟩
  | case2 cs hne ih =>
    rw [cut?, if_neg hne] at h
    obtain ⟨⟨tok, rest⟩, hnext, h⟩ := Option.bind_eq_some_iff.mp h
    simp only at h
    split at h
    · rename_i hlt
      obtain ⟨ts, hcut, rfl⟩ := Option.map_eq_some_iff.mp h
      obtain ⟨htok, he⟩ := next?_spelled hnext
      obtain ⟨hrest, hts⟩ := ih rest hlt hcut
      exact ⟨by rw [he, hrest, List.flatMap_cons], List.forall_mem_cons.mpr ⟨htok, hts⟩⟩
    · cases h

end Token

/-- The tokens of an operand are taken together, wherever an operand may stand, and those of a chain
make up all that has been read since the last open parenthesis. -/
def Taken : Level → Category → List Token → Prop
  | .operand, c, ts => ∀ s : Reading,
    ts.foldlM Reading.next? s = (s.chain.operand? c).map fun chain => { s with chain }
  | .chain, c, ts => ∀ outer, ts.foldlM Reading.next? ⟨.start, outer⟩ = some ⟨.complete c, outer⟩

/-- The text is cut into the tokens where an operand may end. -/
def CutInto (cs : List Char) (ts : List Token) : Prop :=
  ∀ rest, Ends rest → Token.cut? (cs ++ rest) = (Token.cut? rest).map (ts ++ ·)

theorem CutInto.token (tok : Token) (h : tok.Legible) : CutInto tok.text [tok] :=
  fun _ hrest => Token.cut?_text h fun _ => hrest

theorem CutInto.cons {cs : List Char} {ts : List Token} (tok : Token) (h : tok.Legible)
    (hno : tok.isAtom = false) (hcs : CutInto cs ts) : CutInto (tok.text ++ cs) (tok :: ts) := by
  intro rest hrest
  rw [List.append_assoc, Token.cut?_text h (by simp [hno]), hcs rest hrest, Option.map_map]
  rfl

theorem CutInto.append {cs ds : List Char} {ts us : List Token} (hcs : CutInto cs ts)
    (hds : CutInto ds us) (hends : ∀ rest, Ends rest → Ends (ds ++ rest)) :
    CutInto (cs ++ ds) (ts ++ us) := by
  intro rest hrest
  rw [List.append_assoc, hcs _ (hends rest hrest), hds rest hrest, Option.map_map]
  simp [Function.comp_def]

theorem Tight.exists_taken {level : Level} {c : Category} {cs : List Char}
    (h : Tight level c cs) : ∃ ts, CutInto cs ts ∧ Taken level c ts := by
  have hnil {xs : List Char} (hxs : ∀ x ∈ xs, False) : xs = [] :=
    List.eq_nil_iff_forall_not_mem.mpr hxs
  -- what was read before an operand decides whether it can stand there
  induction h with
  | @atom name features hname hfeatures =>
    refine ⟨[.atom name features], .token (.atom name features) ⟨hname, hfeatures⟩, ?_⟩
    intro s
    rw [List.foldlM_cons, Reading.next?]
    cases s.chain.operand? (atom name features) <;> rfl
  | @parens c cs _ ih =>
    obtain ⟨ts, hcut, htaken⟩ := ih
    have hclose : CutInto [')'] [.closeParen] := .token .closeParen trivial
    have hinside := hcut.append hclose fun rest _ => ends_paren rest
    refine ⟨.openParen :: (ts ++ [.closeParen]), hinside.cons .openParen trivial rfl, ?_⟩
    rintro ⟨chain, outer⟩
    cases chain with
    | complete d => rfl
    | start | awaiting =>
      rw [List.foldlM_cons, Reading.next?, Option.bind_eq_bind, Option.bind_some,
        List.foldlM_append, htaken]
      rfl
  | single hbefore hafter _ ih =>
    obtain ⟨ts, hcut, htaken⟩ := ih
    rw [hnil hbefore, hnil hafter, List.nil_append, List.append_nil]
    refine ⟨ts, hcut, fun outer => ?_⟩
    rw [htaken]
    rfl
  | @functor r slash a rs as before after hbefore hafter _ _ ihr iha =>
    obtain ⟨ts, hcut, htaken⟩ := ihr
    obtain ⟨us, hcut', htaken'⟩ := iha
    rw [hnil hbefore, hnil hafter, List.nil_append, List.append_nil]
    have hslash := hcut'.cons (.slash slash) trivial rfl
    refine ⟨ts ++ .slash slash :: us, hcut.append hslash fun rest _ => ends_slash slash _, ?_⟩
    intro outer
    rw [List.foldlM_append, htaken, Option.bind_eq_bind, Option.bind_some, List.foldlM_cons,
      Reading.next?, Option.bind_eq_bind, Option.bind_some, htaken']
    rfl

/-- The text between the last open parenthesis and here. -/
def Chain.Spelled : Chain → List Char → Prop
  | .start, cs => cs = []
  | .complete c, cs => Tight .chain c cs
  | .awaiting r slash, cs => ∃ rs, Tight .chain r rs ∧ cs = rs ++ [slash.symbol]

/-- All that has been read: the chains around, outermost first, with an open parenthesis after each
of them, and then the current one. -/
def Chain.Within (chain : Chain) : List Chain → List Char → Prop
  | [], cs => chain.Spelled cs
  | above :: outer, cs => ∃ before inside, cs = before ++ '(' :: inside ∧
      above.Within outer before ∧ chain.Spelled inside

namespace Chain

variable {chain chain' : Chain} {outer : List Chain} {cs os : List Char} {c : Category}

theorem Spelled.operand (h : chain.Spelled cs) (hc : Tight .operand c os)
    (hnext : chain.operand? c = some chain') : chain'.Spelled (cs ++ os) := by
  cases chain with
  | start =>
    cases hnext
    obtain rfl : cs = [] := h
    exact hc.single
  | complete d => cases hnext
  | awaiting r slash =>
    cases hnext
    obtain ⟨rs, hr, rfl⟩ := h
    rw [List.append_assoc]
    exact hr.functor slash hc

/-- What is added is added to the current chain. -/
theorem Within.append (h : chain.Within outer cs)
    (hadd : ∀ inside, chain.Spelled inside → chain'.Spelled (inside ++ os)) :
    chain'.Within outer (cs ++ os) := by
  cases outer with
  | nil => exact hadd cs h
  | cons above outer =>
    obtain ⟨before, inside, rfl, habove, hinside⟩ := h
    exact ⟨before, inside ++ os, by simp, habove, hadd inside hinside⟩

end Chain

namespace Reading

def Spelled (s : Reading) (cs : List Char) : Prop :=
  s.chain.Within s.outer cs

/-- Each token adds its text to what has been read. -/
theorem Spelled.next {s s' : Reading} {cs : List Char} (h : s.Spelled cs) {tok : Token}
    (htok : tok.Legible) (hnext : s.next? tok = some s') : s'.Spelled (cs ++ tok.text) := by
  obtain ⟨chain, outer⟩ := s
  cases tok with
  | atom name features =>
    obtain ⟨chain', hoperand, rfl⟩ := Option.map_eq_some_iff.mp hnext
    exact Chain.Within.append h fun inside hin => hin.operand (.atom htok.1 htok.2) hoperand
  | slash slash =>
    cases chain with
    | complete c =>
      cases hnext
      exact Chain.Within.append h fun inside hin => ⟨inside, hin, rfl⟩
    | start | awaiting => cases hnext
  | openParen =>
    cases chain with
    | complete c => cases hnext
    | start | awaiting =>
      cases hnext
      exact ⟨cs, [], rfl, h, rfl⟩
  | closeParen =>
    cases chain with
    | start | awaiting => cases hnext
    | complete c =>
      cases outer with
      | nil => cases hnext
      | cons above outer =>
        obtain ⟨chain', hoperand, rfl⟩ := Option.map_eq_some_iff.mp hnext
        obtain ⟨before, inside, rfl, habove, hinside⟩ := h
        have hparens : Tight .operand c (inParens inside) := .parens hinside
        have hall := habove.append fun os hos => hos.operand hparens hoperand
        rw [List.append_assoc]
        exact hall

theorem Spelled.run {s s' : Reading} {cs : List Char} (h : s.Spelled cs) {ts : List Token}
    (hts : ∀ tok ∈ ts, tok.Legible) (hrun : ts.foldlM next? s = some s') :
    s'.Spelled (cs ++ ts.flatMap Token.text) := by
  induction ts generalizing s cs with
  | nil =>
    cases hrun
    simpa using h
  | cons tok ts ih =>
    obtain ⟨htok, hrest⟩ := List.forall_mem_cons.mp hts
    rw [List.foldlM_cons] at hrun
    obtain ⟨mid, hmid, hrun⟩ := Option.bind_eq_some_iff.mp hrun
    rw [List.flatMap_cons, ← List.append_assoc]
    exact ih (h.next htok hmid) hrest hrun

end Reading

/-- The reader takes exactly the spellings of a category. -/
theorem ofText?_eq_some {cs : List Char} {c : Category} :
    ofText? cs = some c ↔ Tight .chain c cs := by
  constructor
  · intro h
    obtain ⟨ts, hcut, h⟩ := Option.bind_eq_some_iff.mp h
    obtain ⟨s, hrun, hfinish⟩ := Option.bind_eq_some_iff.mp h
    obtain ⟨rfl, hts⟩ := Token.cut?_spelled hcut
    have hs : Reading.start.Spelled [] := rfl
    have hspelled := hs.run hts hrun
    obtain ⟨chain, outer⟩ := s
    cases chain with
    | start | awaiting => cases hfinish
    | complete d =>
      cases outer with
      | cons above outer => cases hfinish
      | nil =>
        cases hfinish
        exact hspelled
  · intro h
    obtain ⟨ts, hcut, htaken⟩ := h.exists_taken
    have hall := hcut [] fun c hc => by cases hc
    have hnil : Token.cut? [] = some [] := by
      rw [Token.cut?]
      rfl
    rw [List.append_nil, hnil] at hall
    rw [ofText?, hall, Option.map_some, List.append_nil, Option.bind_some, ofTokens?,
      Reading.start, htaken]
    rfl

/-- A text is read as a category exactly if it spells it, and a text that spells none is refused as
it stands. -/
theorem parse_iff_spells (s : String) :
    (∀ c, parse s = .ok c ↔ Tight .chain c s.toList) ∧
      (parse s = .error ⟨s⟩ ↔ ∀ c, ¬ Tight .chain c s.toList) := by
  simp only [← ofText?_eq_some]
  rw [parse]
  cases ofText? s.toList with
  | none => simp
  | some c => simp

/-- A text with a blank in front of its operand would be a spelling if blanks could surround
operands. It is refused, as they cannot. -/
theorem not_parse_blank :
    Spells (Text.isBlank · = true) .chain (atom "NP" []) " NP".toList ∧
      parse " NP" = .error ⟨" NP"⟩ ∧
      ¬ (parse " NP" = .ok (atom "NP" []) ↔
        Spells (Text.isBlank · = true) .chain (atom "NP" []) " NP".toList) := by
  have hchars : ∀ c ∈ "NP".toList, isNameChar c = true := List.all_eq_true.mp (by decide)
  have hname : IsName "NP" := ⟨by decide, fun c hc => isNameChar_iff.mp (hchars c hc)⟩
  have hatom : Spells (Text.isBlank · = true) .operand (atom "NP" []) "NP".toList :=
    .atom hname fun f hf => absurd hf List.not_mem_nil
  have hbefore : ∀ x ∈ [' '], Text.isBlank x = true := List.forall_mem_singleton.mpr rfl
  have hafter : ∀ x ∈ ([] : List Char), Text.isBlank x = true := fun _ hx =>
    absurd hx List.not_mem_nil
  have hspells : Spells (Text.isBlank · = true) .chain (atom "NP" []) " NP".toList :=
    .single hbefore hafter hatom
  have hrefused : parse " NP" = .error ⟨" NP"⟩ := by decide +kernel
  refine ⟨hspells, hrefused, fun h => ?_⟩
  have hparse := h.mpr hspells
  rw [hrefused] at hparse
  cases hparse

end TreeQuery.Category
