import TreeQuery.Proofs.Text.Quoted
import TreeQuery.Proofs.Text.Runs
import TreeQuery.Query.Token

namespace TreeQuery.Query

open Text Token

/-- The shape of a variable's name. -/
def IsVar (v : String) : Prop :=
  ∃ c cs, v.toList = c :: cs ∧ isVarStart c = true ∧ ∀ x ∈ cs, isVarChar x = true

section Written

/-- A source that was read from between slashes can stand there as it is, unless it has slashes
itself. -/
def Value.Written : Value → Prop
  | text _ => True
  | regex source _ => '/' ∉ source.toList → Quoted.Closed '/' source.toList

def Base.Written : Base → Prop
  | any => True
  | label v | word v | category v => v.Written
  | sameAs var | differentFrom var => IsVar var

def Literal.Written (a : Literal) : Prop :=
  a.base.Written ∧ ∀ v ∈ a.capture, IsVar v

def Token.Written : Token → Prop
  | anchor a => a.Written
  | closeBrace capture => ∀ v ∈ capture, IsVar v
  | _ => True

variable {cs rest : List Char}

theorem isVar_of_var? {v : String} (h : var? cs = some (v, rest)) : IsVar v := by
  cases cs with
  | nil => cases h
  | cons c cs =>
    by_cases hc : isVarStart c = true
    · rw [var?, if_pos hc] at h
      cases h
      exact ⟨c, _, String.toList_ofList, hc, List.all_eq_true.mp List.all_takeWhile⟩
    · rw [var?, if_neg hc] at h
      cases h

theorem isVar_of_capture {v : String} (h : (Token.capture cs).1 = some v) : IsVar v := by
  unfold Token.capture at h
  split at h
  · split at h
    · rename_i hv
      cases h
      exact isVar_of_var? hv
    · cases h
  · cases h

theorem written_of_regex? {v : Value} (h : regex? cs = some (v, rest)) : v.Written := by
  unfold regex? at h
  split at h
  · obtain ⟨⟨body, after⟩, hb, he⟩ := Option.map_eq_some_iff.mp h
    have hclosed : Quoted.Closed '/' body := Quoted.closed_of_body? (by decide) hb
    have hw (anchored : Bool) :
        (Value.regex (String.ofList (Quoted.unescapeSlashes body)) anchored).Written := by
      intro hno
      rw [String.toList_ofList] at hno ⊢
      have hbody : '/' ∉ body := fun hm => hno ((Quoted.mem_unescapeSlashes (by decide)).mpr hm)
      rwa [Quoted.unescapeSlashes_of_not_mem hbody]
    simp only at he
    split at he
    · cases he
      exact hw false
    · cases he
      exact hw true
  · cases h

theorem written_of_quoted? {v : Value} (h : quoted? cs = some (v, rest)) : v.Written := by
  unfold quoted? at h
  split at h
  · obtain ⟨⟨body, after⟩, _, he⟩ := Option.map_eq_some_iff.mp h
    cases he
    trivial
  · cases h

theorem written_of_bare? {v : Value} (h : bare? cs = some (v, rest)) : v.Written := by
  unfold bare? at h
  split at h
  · split at h
    · cases h
      trivial
    · cases h
  · cases h

theorem written_of_category? {v : Value} (h : category? cs = some (v, rest)) : v.Written := by
  unfold category? at h
  split at h
  · cases h
  · cases h
    trivial

/-- Of the first of two readers that succeeds, or of the second. -/
theorem written_of_or {a b : Option (Value × List Char)} {v : Value} (h : a.or b = some (v, rest))
    (ha : a = some (v, rest) → v.Written) (hb : b = some (v, rest) → v.Written) : v.Written := by
  rcases Option.or_eq_some_iff.mp h with h | ⟨_, h⟩
  · exact ha h
  · exact hb h

theorem written_of_base? {b : Base} (h : base? cs = some (b, rest)) : b.Written := by
  unfold base? at h
  split at h
  · cases h
  · cases h
    trivial
  · obtain ⟨⟨v, r⟩, hv, he⟩ := Option.map_eq_some_iff.mp h
    cases he
    exact written_of_regex? hv
  · obtain ⟨⟨v, r⟩, hv, he⟩ := Option.map_eq_some_iff.mp h
    cases he
    exact written_of_or hv written_of_regex? fun h =>
      written_of_or h written_of_quoted? written_of_bare?
  · obtain ⟨⟨v, r⟩, hv, he⟩ := Option.map_eq_some_iff.mp h
    cases he
    exact written_of_or hv written_of_regex? fun h =>
      written_of_or h written_of_quoted? written_of_category?
  · obtain ⟨⟨v, r⟩, hv, he⟩ := Option.map_eq_some_iff.mp h
    cases he
    exact isVar_of_var? hv
  · obtain ⟨⟨v, r⟩, hv, he⟩ := Option.map_eq_some_iff.mp h
    cases he
    exact isVar_of_var? hv
  · obtain ⟨⟨v, r⟩, hv, he⟩ := Option.map_eq_some_iff.mp h
    cases he
    exact written_of_or hv written_of_quoted? written_of_bare?

theorem written_of_anchor? {tok : Token} (h : anchor? cs = some (tok, rest)) : tok.Written := by
  obtain ⟨⟨b, r⟩, hb, he⟩ := Option.map_eq_some_iff.mp h
  cases he
  exact ⟨written_of_base? hb, fun v hv => isVar_of_capture hv⟩

/-- A token where a node or where a constraint is called for. -/
def token? (wanting : Bool) (cs : List Char) : Option (Token × List Char) :=
  if wanting then node? cs else constraint? cs

theorem written_of_token? {wanting : Bool} {tok : Token}
    (h : token? wanting cs = some (tok, rest)) : tok.Written := by
  cases wanting with
  | true =>
    have hn : node? cs = some (tok, rest) := h
    unfold node? at hn
    split at hn
    · cases hn
      trivial
    · exact written_of_anchor? hn
  | false =>
    have hc : constraint? cs = some (tok, rest) := h
    unfold constraint? at hc
    split at hc
    case h_8 =>
      split at hc
      · rename_i hv
        cases hc
        intro v hm
        cases hm
        exact isVar_of_capture (congrArg Prod.fst hv)
      · cases hc
        exact fun v hm => by cases hm
    case h_9 =>
      split at hc
      · cases hc
        trivial
      · cases hc
    all_goals
      cases hc
      try trivial

/-- Every token is cut off from what is left of the query. -/
theorem exists_token?_of_cut? {wanting : Bool} {ts : List Token} (h : cut? wanting cs = some ts) :
    ∀ tok ∈ ts, ∃ wanting' left after, left.length ≤ cs.length ∧
      token? wanting' left = some (tok, after) := by
  fun_induction cut? wanting cs generalizing ts with
  | case1 =>
    cases h
    exact fun tok hm => absurd hm List.not_mem_nil
  | case2 wanting cs _ ih =>
    obtain ⟨⟨tok, after⟩, htok, h⟩ := Option.bind_eq_some_iff.mp h
    by_cases hlt : after.length < cs.length
    · simp only [if_pos hlt] at h
      obtain ⟨more, hmore, rfl⟩ := Option.map_eq_some_iff.mp h
      refine List.forall_mem_cons.mpr
        ⟨⟨wanting, skipBlanks cs, after, length_skipBlanks_le cs, htok⟩, fun tok' hm => ?_⟩
      obtain ⟨wanting', left, after', hle, htok'⟩ := ih tok after hlt hmore tok' hm
      exact ⟨wanting', left, after', Nat.le_of_lt (Nat.lt_of_le_of_lt hle hlt), htok'⟩
    · simp only [if_neg hlt] at h
      cases h

/-- Every token of a query is well written. -/
theorem written_of_cut? {wanting : Bool} {ts : List Token} (h : cut? wanting cs = some ts) :
    ∀ tok ∈ ts, tok.Written := by
  intro tok hm
  obtain ⟨_, _, _, _, htok⟩ := exists_token?_of_cut? h tok hm
  exact written_of_token? htok

end Written

section Spelling

def spellCapture : Option String → List Char
  | none => []
  | some var => '=' :: var.toList

/-- Where one of these follows, a value or a variable has come to its end. -/
def Ends (rest : List Char) : Prop :=
  ∀ c ∈ rest.head?, c = ' ' ∨ c = '='

variable {rest : List Char}

theorem Ends.head_of {p : Char → Bool} (h : Ends rest) (hs : p ' ' = false) (he : p '=' = false) :
    ∀ c ∈ rest.head?, p c = false := by
  intro c hc
  rcases h c hc with rfl | rfl
  · exact hs
  · exact he

theorem var?_append {v : String} (hv : IsVar v) (h : Ends rest) :
    var? (v.toList ++ rest) = some (v, rest) := by
  obtain ⟨c, cs, he, hc, hcs⟩ := hv
  have hend : ∀ x ∈ rest.head?, isVarChar x = false := h.head_of (by decide) (by decide)
  rw [he, List.cons_append, var?, if_pos hc, takeWhile_run hcs hend, dropWhile_run hcs hend, ← he,
    String.ofList_toList]

theorem capture_append {c : Option String} (hc : ∀ v ∈ c, IsVar v) (h : ∀ x ∈ rest.head?, x = ' ') :
    Token.capture (spellCapture c ++ rest) = (c, rest) := by
  cases c with
  | none =>
    change Token.capture rest = (none, rest)
    unfold Token.capture
    split
    · cases h '=' rfl
    · rfl
  | some v =>
    have hends : Ends rest := fun x hx => .inl (h x hx)
    simp only [spellCapture, List.cons_append, Token.capture, var?_append (hc v rfl) hends]

theorem ends_spellCapture {c : Option String} (h : ∀ x ∈ rest.head?, x = ' ') :
    Ends (spellCapture c ++ rest) := by
  cases c with
  | none => exact fun x hx => .inl (h x hx)
  | some v =>
    intro x hx
    cases hx
    exact .inr rfl

theorem quoted?_eq_none {c : Char} (h : c ≠ '"') (cs : List Char) : quoted? (c :: cs) = none := by
  rw [quoted?]
  rintro _ he
  cases he
  exact h rfl

theorem isBareStart_of_isBare {s : List Char} (h : isBare s = true) :
    ∃ c cs, s = c :: cs ∧ isBareStart c = true ∧ ∀ x ∈ cs, isBareChar x = true := by
  cases s with
  | nil => cases h
  | cons c cs =>
    simp only [isBare, Bool.and_eq_true, List.all_cons, List.all_eq_true] at h
    obtain ⟨hi, hc, hcs⟩ := h
    have bare : ∀ x, (!isWhiteSpace x) = true ∧ (!isStructural x) = true → isBareChar x = true := by
      rintro x ⟨hw, hs⟩
      have hb : isBlank x = false := by
        cases hx : isBlank x with
        | false => rfl
        | true => simp [isWhiteSpace_of_isBlank hx] at hw
      simp only [isBareChar, hs, hb]
      rfl
    refine ⟨c, cs, rfl, ?_, fun x hx => bare x (hcs x hx)⟩
    rw [isBareStart, bare c hc, hi]
    rfl

theorem bare?_append {s : String} (hs : isBare s.toList = true) (h : Ends rest) :
    bare? (s.toList ++ rest) = some (.text s, rest) := by
  obtain ⟨c, cs, he, hc, hcs⟩ := isBareStart_of_isBare hs
  have hend : ∀ x ∈ rest.head?, isBareChar x = false := h.head_of (by decide) (by decide)
  rw [he, List.cons_append, bare?, if_pos hc, takeWhile_run hcs hend, dropWhile_run hcs hend, ← he,
    String.ofList_toList]

/-- The characters that tell one kind of anchor from another, and from a group. -/
def isMarker (c : Char) : Bool :=
  ['*', '/', '^', '@', '=', '~', '{'].contains c

theorem isMarker_of_isBareStart {c : Char} (h : isBareStart c = true) :
    isMarker c = false ∧ c ≠ '"' := by
  constructor
  · cases hm : isMarker c with
    | false => rfl
    | true =>
      simp only [isMarker, List.contains_iff_mem, List.mem_cons, List.not_mem_nil, or_false] at hm
      rcases hm with rfl | rfl | rfl | rfl | rfl | rfl | rfl <;> cases h
  · rintro rfl
    cases h

theorem base?_of_unmarked {c : Char} (h : isMarker c = false) (cs : List Char) :
    base? (c :: cs) =
      ((quoted? (c :: cs)).or (bare? (c :: cs))).map fun (v, after) => (.label v, after) := by
  rw [base?]
  · exact fun he => by cases he
  all_goals
    rintro _ he
    cases he
    cases h

theorem label?_bare {s : String} (hb : isBare s.toList = true) (h : Ends rest) :
    base? (s.toList ++ rest) = some (.label (.text s), rest) := by
  obtain ⟨c, cs, he, hc, _⟩ := isBareStart_of_isBare hb
  obtain ⟨hm, hq⟩ := isMarker_of_isBareStart hc
  have hr := bare?_append hb h
  rw [he, List.cons_append] at hr
  rw [he, List.cons_append, base?_of_unmarked hm, quoted?_eq_none hq, hr]
  rfl

theorem head_of_isBare {s : String} (h : isBare s.toList = true) :
    ∃ c cs, s.toList = c :: cs ∧ isBlank c = false ∧ c ≠ '{' := by
  obtain ⟨c, cs, he, hc, _⟩ := isBareStart_of_isBare h
  refine ⟨c, cs, he, ?_, ?_⟩
  · simp only [isBareStart, isBareChar, Bool.and_eq_true, Bool.not_eq_true'] at hc
    exact hc.1.2
  · rintro rfl
    cases hc

theorem operatorChar_head {c : Char} (h : isOperatorChar c = true) :
    isBlank c = false ∧ c ∉ ['=', '!', '?', '|', '[', ']', '{', '}'] := by
  constructor
  · cases hb : isBlank c with
    | false => rfl
    | true =>
      simp only [isBlank, Bool.or_eq_true, decide_eq_true_eq] at hb
      rcases hb with ((rfl | rfl) | rfl) | rfl <;> cases h
  · intro hm
    simp only [List.mem_cons, List.not_mem_nil, or_false] at hm
    rcases hm with rfl | rfl | rfl | rfl | rfl | rfl | rfl | rfl <;> cases h

/-- What may follow a token: nothing, or a space; after a closing brace that captures nothing, not
what looks like a capture. -/
structure Follows (tok : Token) (rest : List Char) : Prop where
  space : ∀ c ∈ rest.head?, c = ' '
  noCapture : tok = .closeBrace none → (Token.capture (skipBlanks rest)).1 = none

theorem constraint?_operator {symbol : String} (hne : symbol.toList ≠ [])
    (hs : ∀ c ∈ symbol.toList, isOperatorChar c = true) (h : ∀ c ∈ rest.head?, c = ' ') :
    constraint? (symbol.toList ++ rest) = some (.operator symbol, rest) := by
  obtain ⟨c, cs, he⟩ := List.exists_cons_of_ne_nil hne
  rw [he] at hs
  obtain ⟨hc, hcs⟩ := List.forall_mem_cons.mp hs
  obtain ⟨_, hm⟩ := operatorChar_head hc
  have hends : Ends rest := fun x hx => .inl (h x hx)
  have hend : ∀ x ∈ rest.head?, isOperatorChar x = false := hends.head_of (by decide) (by decide)
  rw [he, List.cons_append, constraint?]
  · rw [if_pos hc, takeWhile_run hcs hend, dropWhile_run hcs hend, ← he, String.ofList_toList]
  all_goals
    rintro rfl
    exact hm (by decide)

theorem capture_of_head {cs : List Char} (h : ∀ c ∈ cs.head?, c ≠ '=') :
    Token.capture cs = (none, cs) := by
  unfold Token.capture
  split
  · exact absurd rfl (h '=' rfl)
  · rfl

theorem cut?_nil (wanting : Bool) : cut? wanting [] = some [] := by
  rw [cut?]
  rfl

/-- A token is cut off from what is visible, and the rest is cut as the token calls for. -/
theorem cut?_of_token? {wanting : Bool} {cs : List Char} {c : Char} {tail : List Char}
    (hcs : skipBlanks cs = c :: tail) {tok : Token}
    (htok : token? wanting (c :: tail) = some (tok, rest)) (hlt : rest.length ≤ tail.length) :
    cut? wanting cs = (cut? tok.wantsNode rest).map (tok :: ·) := by
  have hle := length_skipBlanks_le cs
  rw [hcs, List.length_cons] at hle
  have hshorter : rest.length < cs.length := by omega
  rw [cut?, hcs]
  change (token? wanting (c :: tail)).bind _ = _
  rw [htok, Option.bind_some]
  exact if_pos hshorter

/-- A token is cut off where its text stands, and takes no more than that. -/
theorem cut?_of_text {wanting : Bool} {tok : Token} {text cs : List Char} (hne : text ≠ [])
    (hcs : skipBlanks cs = text ++ rest) (htok : token? wanting (text ++ rest) = some (tok, rest)) :
    cut? wanting cs = (cut? tok.wantsNode rest).map (tok :: ·) := by
  obtain ⟨c, tail, rfl⟩ := List.exists_cons_of_ne_nil hne
  exact cut?_of_token? hcs htok (by simp)

variable [Unicode.Tables]

/-- Only labels may stand without quotes. -/
def Value.spell (bare : Bool) : Value → List Char
  | text s => if bare && isBare s.toList then s.toList else Quoted.encode s.toList
  | regex source anchored => '/' :: source.toList ++ '/' :: (if anchored then [] else ['a'])

def Base.spell : Base → List Char
  | any => ['*']
  | label v => v.spell true
  | word v => '^' :: v.spell false
  | category v => '@' :: v.spell false
  | sameAs var => '=' :: var.toList
  | differentFrom var => '~' :: var.toList

def Literal.spell (a : Literal) : List Char :=
  a.base.spell ++ spellCapture a.capture

def Token.spell : Token → List Char
  | anchor a => a.spell
  | operator symbol => symbol.toList
  | bar => ['|']
  | not => ['!']
  | optional => ['?']
  | openBracket => ['[']
  | closeBracket => [']']
  | openBrace => ['{']
  | closeBrace capture => '}' :: spellCapture capture

/-- Each token with a space before it. -/
def spaced (ts : List Token) : List Char :=
  ts.flatMap fun tok => ' ' :: tok.spell

theorem spaced_cons (tok : Token) (ts : List Token) :
    spaced (tok :: ts) = ' ' :: tok.spell ++ spaced ts :=
  List.flatMap_cons

theorem spaced_append (ts us : List Token) : spaced (ts ++ us) = spaced ts ++ spaced us :=
  List.flatMap_append

/-- A value that is read back from its spelling. -/
def Value.Legible : Value → Prop
  | text s => ∀ c ∈ s.toList, Quoted.IsPlain c
  | regex source _ => '/' ∉ source.toList ∧ Quoted.Closed '/' source.toList

def Base.Legible : Base → Prop
  | any => True
  | label v | word v | category v => v.Legible
  | sameAs var | differentFrom var => IsVar var

def Literal.Legible (a : Literal) : Prop :=
  a.base.Legible ∧ ∀ v ∈ a.capture, IsVar v

/-- A token that is read back from its spelling where a node, or a constraint, is called for. -/
def Token.Legible (wanting : Bool) : Token → Prop
  | anchor a => wanting = true ∧ a.Legible
  | operator symbol =>
    wanting = false ∧ symbol.toList ≠ [] ∧ ∀ c ∈ symbol.toList, isOperatorChar c = true
  | openBrace => True
  | closeBrace capture => wanting = false ∧ ∀ v ∈ capture, IsVar v
  | bar | not | optional | openBracket | closeBracket => wanting = false

theorem regex?_append {source : String} {anchored : Bool}
    (hv : (Value.regex source anchored).Legible) (bare : Bool) (h : Ends rest) :
    regex? ((Value.regex source anchored).spell bare ++ rest) =
      some (.regex source anchored, rest) := by
  obtain ⟨hno, hclosed⟩ := hv
  have hbody : ∀ after, Quoted.body? '/' (source.toList ++ '/' :: after) =
      some (source.toList, after) := hclosed
  have hs : String.ofList (Quoted.unescapeSlashes source.toList) = source := by
    rw [Quoted.unescapeSlashes_of_not_mem hno, String.ofList_toList]
  simp only [Value.spell, List.cons_append, List.append_assoc, regex?, hbody, Option.map_some,
    hs]
  cases anchored with
  | false => rfl
  | true =>
    simp only [List.nil_append, ↓reduceIte]
    split
    · rcases h 'a' rfl with he | he <;> cases he
    · rfl

/-- What a text is read back as from between quotes. -/
def reread (s : String) : String :=
  String.ofList (s.toList.flatMap Quoted.reread)

theorem reread_eq_self_iff {s : String} : reread s = s ↔ ∀ c ∈ s.toList, Quoted.IsPlain c := by
  rw [← Quoted.flatMap_reread_eq_self_iff, reread, ← String.toList_inj, String.toList_ofList]

theorem quoted?_encode (s : String) (rest : List Char) :
    quoted? (Quoted.encode s.toList ++ rest) = some (.text (reread s), rest) := by
  have hbody := Quoted.closed_escape s.toList rest
  simp only [Quoted.encode, List.cons_append, List.append_assoc, List.nil_append, quoted?, hbody,
    Option.map_some, Quoted.unescape_escape, reread]

theorem quoted?_append {s : String} (hs : (Value.text s).Legible) :
    quoted? (Quoted.encode s.toList ++ rest) = some (.text s, rest) := by
  rw [quoted?_encode, reread_eq_self_iff.mpr hs]

theorem Value.spell_bare {s : String} (h : isBare s.toList = true) :
    (Value.text s).spell true = s.toList := by
  simp [Value.spell, h]

/-- A text in quotes is read before anything that may stand without them. -/
theorem value?_append {v : Value} (hv : v.Legible) (h : Ends rest)
    (bare : Option (Value × List Char)) :
    (regex? (v.spell false ++ rest)).or ((quoted? (v.spell false ++ rest)).or bare) =
      some (v, rest) := by
  cases v with
  | regex source anchored => rw [regex?_append hv false h, Option.some_or]
  | text s =>
    have hq : quoted? ((Value.text s).spell false ++ rest) = some (.text s, rest) :=
      quoted?_append hv
    have hr : regex? ((Value.text s).spell false ++ rest) = none := rfl
    rw [hr, hq, Option.none_or, Option.some_or]

theorem label?_append {s : String} (hs : (Value.text s).Legible) (h : Ends rest) :
    base? ((Value.text s).spell true ++ rest) = some (.label (.text s), rest) := by
  by_cases hb : isBare s.toList = true
  · rw [Value.spell_bare hb, label?_bare hb h]
  · have hspell : (Value.text s).spell true = Quoted.encode s.toList := by
      simp [Value.spell, hb]
    have hr : quoted? (Quoted.encode s.toList ++ rest) = some (.text s, rest) := quoted?_append hs
    rw [Quoted.encode, List.cons_append, List.cons_append] at hr
    rw [hspell, Quoted.encode, List.cons_append, List.cons_append, base?_of_unmarked (by decide),
      hr]
    rfl

theorem base?_append {b : Base} (hb : b.Legible) (h : Ends rest) :
    base? (b.spell ++ rest) = some (b, rest) := by
  cases b with
  | any => rfl
  | label v =>
    cases v with
    | regex source anchored =>
      have hv : (Value.regex source anchored).Legible := hb
      have hr := regex?_append hv true h
      simp only [Value.spell, List.cons_append] at hr
      simp only [Base.spell, Value.spell, List.cons_append, base?, hr, Option.map_some]
    | text s => exact label?_append hb h
  | word v => simp only [Base.spell, List.cons_append, base?, value?_append hb h, Option.map_some]
  | category v =>
    simp only [Base.spell, List.cons_append, base?, value?_append hb h, Option.map_some]
  | sameAs var =>
    have hv : IsVar var := hb
    simp only [Base.spell, List.cons_append, base?, var?_append hv h, Option.map_some]
  | differentFrom var =>
    have hv : IsVar var := hb
    simp only [Base.spell, List.cons_append, base?, var?_append hv h, Option.map_some]

/-- An anchor is read with its capture as soon as its base is. -/
theorem anchor?_of_base {a : Literal}
    (hb : ∀ rest, Ends rest → base? (a.base.spell ++ rest) = some (a.base, rest))
    (hv : ∀ v ∈ a.capture, IsVar v) (h : ∀ c ∈ rest.head?, c = ' ') :
    anchor? (a.spell ++ rest) = some (.anchor a, rest) := by
  rw [Literal.spell, List.append_assoc, anchor?, hb _ (ends_spellCapture h), Option.map_some]
  simp only [capture_append hv h]

theorem anchor?_append {a : Literal} (ha : a.Legible) (h : ∀ c ∈ rest.head?, c = ' ') :
    anchor? (a.spell ++ rest) = some (.anchor a, rest) :=
  anchor?_of_base (fun _ hends => base?_append ha.1 hends) ha.2 h

theorem head_of_spell_label (v : Value) :
    ∃ c cs, v.spell true = c :: cs ∧ isBlank c = false ∧ c ≠ '{' := by
  cases v with
  | regex source anchored => exact ⟨'/', _, rfl, rfl, by decide⟩
  | text s =>
    by_cases hb : isBare s.toList = true
    · rw [Value.spell_bare hb]
      exact head_of_isBare hb
    · have hspell : (Value.text s).spell true = Quoted.encode s.toList := by
        simp [Value.spell, hb]
      exact ⟨'"', _, hspell, rfl, by decide⟩

theorem head_of_spell_base (b : Base) :
    ∃ c cs, b.spell = c :: cs ∧ isBlank c = false ∧ c ≠ '{' := by
  cases b with
  | any => exact ⟨'*', _, rfl, rfl, by decide⟩
  | label v => exact head_of_spell_label v
  | word v => exact ⟨'^', _, rfl, rfl, by decide⟩
  | category v => exact ⟨'@', _, rfl, rfl, by decide⟩
  | sameAs var => exact ⟨'=', _, rfl, rfl, by decide⟩
  | differentFrom var => exact ⟨'~', _, rfl, rfl, by decide⟩

/-- A token begins with a visible character, and not with `=` unless it is an anchor. -/
theorem head_of_spell {wanting : Bool} {tok : Token} (h : tok.Legible wanting) :
    ∃ c cs, tok.spell = c :: cs ∧ isBlank c = false ∧ (wanting = false → c ≠ '=') := by
  cases tok with
  | anchor a =>
    obtain ⟨c, cs, he, hc, _⟩ := head_of_spell_base a.base
    obtain ⟨hw, _⟩ := h
    refine ⟨c, cs ++ spellCapture a.capture, ?_, hc, fun hf => by rw [hw] at hf; cases hf⟩
    rw [Token.spell, Literal.spell, he, List.cons_append]
  | operator symbol =>
    obtain ⟨_, hne, hs⟩ := h
    obtain ⟨c, cs, he⟩ := List.exists_cons_of_ne_nil hne
    obtain ⟨hb, hm⟩ := operatorChar_head (hs c (he ▸ List.mem_cons_self))
    exact ⟨c, cs, he, hb, fun _ hc => hm (hc ▸ List.mem_cons_self)⟩
  | bar => exact ⟨'|', [], rfl, rfl, fun _ => by decide⟩
  | not => exact ⟨'!', [], rfl, rfl, fun _ => by decide⟩
  | optional => exact ⟨'?', [], rfl, rfl, fun _ => by decide⟩
  | openBracket => exact ⟨'[', [], rfl, rfl, fun _ => by decide⟩
  | closeBracket => exact ⟨']', [], rfl, rfl, fun _ => by decide⟩
  | openBrace => exact ⟨'{', [], rfl, rfl, fun _ => by decide⟩
  | closeBrace capture => exact ⟨'}', spellCapture capture, rfl, rfl, fun _ => by decide⟩

theorem token?_append {wanting : Bool} {tok : Token} (htok : tok.Legible wanting)
    (h : Follows tok rest) : token? wanting (tok.spell ++ rest) = some (tok, rest) := by
  cases tok with
  | anchor a =>
    obtain ⟨rfl, ha⟩ := htok
    obtain ⟨c, cs, he, _, hc⟩ := head_of_spell_base a.base
    have hr := anchor?_append ha h.space
    rw [Literal.spell, he, List.cons_append, List.cons_append] at hr
    change node? (a.spell ++ rest) = _
    rw [Literal.spell, he, List.cons_append, List.cons_append, node?, hr]
    rintro _ hx
    cases hx
    exact hc rfl
  | operator symbol =>
    obtain ⟨rfl, hne, hs⟩ := htok
    exact constraint?_operator hne hs h.space
  | openBrace => cases wanting <;> rfl
  | closeBrace capture =>
    obtain ⟨rfl, hv⟩ := htok
    change constraint? ('}' :: (spellCapture capture ++ rest)) = _
    cases capture with
    | none =>
      have hno := h.noCapture rfl
      change constraint? ('}' :: rest) = _
      rw [constraint?]
      split
      · rename_i hc
        rw [hc] at hno
        cases hno
      · rfl
    | some v =>
      have hskip : skipBlanks (spellCapture (some v) ++ rest) = spellCapture (some v) ++ rest :=
        skipBlanks_of_visible fun c hc => by cases hc; rfl
      rw [constraint?, hskip, capture_append hv h.space]
  | bar | not | optional | openBracket | closeBracket =>
    obtain rfl : wanting = false := htok
    rfl

/-- The tokens can follow one another, from where a node or a constraint is called for to where one
is in the end. -/
def Chain : Bool → List Token → Bool → Prop
  | wanting, [], last => wanting = last
  | wanting, tok :: ts, last => tok.Legible wanting ∧ Chain tok.wantsNode ts last

theorem Chain.append {a b c : Bool} {ts us : List Token} (h : Chain a ts b) (h' : Chain b us c) :
    Chain a (ts ++ us) c := by
  induction ts generalizing a with
  | nil =>
    obtain rfl : a = b := h
    exact h'
  | cons tok ts ih => exact ⟨h.1, ih h.2⟩

theorem skipBlanks_spaced {wanting : Bool} {tok : Token} (h : tok.Legible wanting)
    (ts : List Token) : skipBlanks (spaced (tok :: ts)) = tok.spell ++ spaced ts := by
  obtain ⟨c, cs, he, hc, _⟩ := head_of_spell h
  rw [spaced_cons, ← List.singleton_append, List.append_assoc]
  refine skipBlanks_append (by simp [isBlank]) fun x hx => ?_
  rw [he] at hx
  cases hx
  exact hc

/-- What is spelled next may follow. -/
theorem Chain.follows {tok : Token} {last : Bool} {ts : List Token}
    (h : Chain tok.wantsNode ts last) : Follows tok (spaced ts) := by
  cases ts with
  | nil => exact ⟨fun c hc => absurd hc (by simp [spaced]), fun _ => rfl⟩
  | cons next ts =>
    refine ⟨fun c hc => by cases hc; rfl, ?_⟩
    rintro rfl
    obtain ⟨c, cs, he, _, hne⟩ := head_of_spell h.1
    rw [skipBlanks_spaced h.1, he, capture_of_head]
    intro x hx
    cases hx
    exact hne rfl

/-- The first token is cut off, whatever blanks stand before it. -/
theorem cut?_step {wanting last : Bool} {tok : Token} {ts : List Token}
    (h : Chain wanting (tok :: ts) last) {cs : List Char}
    (hcs : skipBlanks cs = tok.spell ++ spaced ts) :
    cut? wanting cs = (cut? tok.wantsNode (spaced ts)).map (tok :: ·) := by
  have hne : tok.spell ≠ [] := by
    obtain ⟨c, tail, he, _, _⟩ := head_of_spell h.1
    simp [he]
  exact cut?_of_text hne hcs (token?_append h.1 h.2.follows)

theorem cut?_spaced {wanting last : Bool} {ts : List Token} (h : Chain wanting ts last) :
    cut? wanting (spaced ts) = some ts := by
  induction ts generalizing wanting with
  | nil => exact cut?_nil wanting
  | cons tok ts ih => rw [cut?_step h (skipBlanks_spaced h.1 ts), ih h.2, Option.map_some]

/-- The space before the first token makes no difference. -/
theorem cut?_of_spaced {wanting last : Bool} {ts : List Token} (h : Chain wanting ts last)
    {cs : List Char} (hcs : ' ' :: cs = spaced ts) : cut? wanting cs = some ts := by
  cases ts with
  | nil => cases hcs
  | cons tok ts =>
    have hskip : skipBlanks cs = tok.spell ++ spaced ts := by
      rw [← skipBlanks_spaced h.1, ← hcs]
      rfl
    rw [cut?_step h hskip, cut?_spaced h.2, Option.map_some]

end Spelling

end TreeQuery.Query
