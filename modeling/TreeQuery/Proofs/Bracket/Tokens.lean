import TreeQuery.Bracket.Reader
import TreeQuery.Proofs.Bracket.Spelling

namespace TreeQuery.Bracket

open Text

namespace Token

def lexemes : Token → List Lexeme
  | openBracket => [.sign "("]
  | closeBracket => [.sign ")"]
  | word s => [.text s]
  | lexical category pos formerPos form predicate =>
    .sign "<L" :: (category :: pos :: formerPos :: form :: predicate.toList).map .text ++
      [.sign ">"]
  | derived category head arity => .sign "<T" :: [category, head, arity].map .text ++ [.sign ">"]

/-- A token that can be written where it stands: a label and a header only directly after an opening
bracket. -/
def Legible (opened : Bool) : Token → Prop
  | openBracket | closeBracket => True
  | word s => IsWord s ∧ (opened = true → s.toList.head? ≠ some '<')
  | lexical category pos formerPos form predicate =>
    opened = true ∧ ∀ f ∈ category :: pos :: formerPos :: form :: predicate.toList, IsField f
  | derived category head arity =>
    opened = true ∧ IsField category ∧ Numeral.isNumeral head.toList = true ∧
      Numeral.isNumeral arity.toList = true

def isWord : Token → Bool
  | word _ => true
  | _ => false

def Chain (opened : Bool) : List Token → Prop
  | [] => True
  | tok :: ts => tok.Legible opened ∧ Chain tok.opens ts

def spelling (ts : List Token) : List Lexeme :=
  ts.flatMap lexemes

theorem spelling_cons (tok : Token) (ts : List Token) :
    spelling (tok :: ts) = tok.lexemes ++ spelling ts :=
  List.flatMap_cons

theorem isWordChar_iff {c : Char} :
    isWordChar c = true ↔ isBlank c = false ∧ c ≠ '(' ∧ c ≠ ')' := by
  simp [isWordChar, and_assoc]

theorem isWordChar_of_isBlank {c : Char} (h : isBlank c = true) : isWordChar c = false := by
  simp [isWordChar, h]

theorem isField_of_isNumeral {s : String} (h : Numeral.isNumeral s.toList = true) : IsField s := by
  rw [Numeral.isNumeral, Bool.and_eq_true, List.all_eq_true] at h
  obtain ⟨hne, hdigits⟩ := h
  refine ⟨by simpa using hne, fun c hc => ?_⟩
  have hd : c.isDigit = true := hdigits c hc
  constructor
  · cases hb : isBlank c with
    | false => rfl
    | true =>
      simp only [isBlank, Bool.or_eq_true, decide_eq_true_eq] at hb
      rcases hb with ((rfl | rfl) | rfl) | rfl <;> cases hd
  · rintro rfl
    cases hd

/-- Words of a header's body are fields. -/
theorem isField_of_mem_words {body : List Char} (hbody : '>' ∉ body) {f : String}
    (h : f ∈ (words body).map String.ofList) : IsField f := by
  obtain ⟨w, hw, rfl⟩ := List.mem_map.mp h
  obtain ⟨hne, hchars⟩ := mem_words hw
  rw [IsField, String.toList_ofList]
  refine ⟨hne, fun c hc => ⟨(hchars c hc).2, ?_⟩⟩
  rintro rfl
  exact hbody (hchars _ hc).1

section Header

/-- The token of a header with these fields. -/
def ofFields? : Char → List String → Option Token
  | 'L', [category, pos, formerPos, form] => some (lexical category pos formerPos form none)
  | 'L', [category, pos, formerPos, form, predicate] =>
    some (lexical category pos formerPos form (some predicate))
  | 'T', [category, head, arity] =>
    if Numeral.isNumeral head.toList && Numeral.isNumeral arity.toList then
      some (derived category head arity)
    else none
  | _, _ => none

theorem header?_cons (kind : Char) (cs : List Char) :
    header? (kind :: cs) =
      match cs.dropWhile (· != '>') with
      | _ :: rest =>
        (ofFields? kind ((words (cs.takeWhile (· != '>'))).map String.ofList)).map (·, rest)
      | [] => none := by
  rw [header?]
  cases cs.dropWhile (· != '>') with
  | nil => rfl
  | cons d rest =>
    generalize (words (cs.takeWhile (· != '>'))).map String.ofList = fields
    unfold ofFields?
    simp only
    split
    · rfl
    · rfl
    · split <;> simp_all
    · simp

variable {kind : Char} {cs rest : List Char} {tok : Token}

/-- A header ends at the first closing angle bracket. -/
theorem header?_eq_some : header? (kind :: cs) = some (tok, rest) ↔
    ∃ body, '>' ∉ body ∧ cs = body ++ '>' :: rest ∧
      ofFields? kind ((words body).map String.ofList) = some tok := by
  rw [header?_cons]
  constructor
  · intro h
    have hno : '>' ∉ cs.takeWhile (· != '>') := fun hm => by
      simpa using List.all_eq_true.mp List.all_takeWhile _ hm
    cases hd : cs.dropWhile (· != '>') with
    | nil =>
      rw [hd] at h
      cases h
    | cons d after =>
      rw [hd] at h
      obtain rfl : d = '>' := by
        have hmem : d ∈ (cs.dropWhile (· != '>')).head? := by rw [hd]; rfl
        simpa using head_dropWhile hmem
      obtain ⟨_, htok, he⟩ := Option.map_eq_some_iff.mp h
      cases he
      refine ⟨_, hno, ?_, htok⟩
      rw [← hd, List.takeWhile_append_dropWhile]
  · rintro ⟨body, hno, rfl, htok⟩
    have hbody : ∀ c ∈ body, (c != '>') = true := by
      intro c hc
      rw [bne_iff_ne]
      rintro rfl
      exact hno hc
    have hend : ∀ c ∈ ('>' :: rest).head?, (c != '>') = false := by
      intro c hc
      cases hc
      rfl
    rw [takeWhile_run hbody hend, dropWhile_run hbody hend]
    simp only [htok, Option.map_some]

/-- What can be read from a header is what can be written there. -/
theorem header_of_fields? {fields : List String} (hf : ∀ f ∈ fields, IsField f)
    (h : ofFields? kind fields = some tok) :
    tok.Legible true ∧ tok.lexemes =
      .sign (String.ofList ['<', kind]) :: fields.map .text ++ [.sign ">"] := by
  unfold ofFields? at h
  split at h
  · cases h
    exact ⟨⟨rfl, hf⟩, rfl⟩
  · cases h
    exact ⟨⟨rfl, hf⟩, rfl⟩
  · split at h
    · rename_i hn
      cases h
      rw [Bool.and_eq_true] at hn
      exact ⟨⟨rfl, hf _ List.mem_cons_self, hn⟩, rfl⟩
    · cases h
  · cases h

theorem opened_of_fields? {fields : List String} (h : ofFields? kind fields = some tok)
    {opened : Bool} (hl : tok.Legible opened) : opened = true ∧ tok.isWord = false := by
  unfold ofFields? at h
  split at h
  · cases h
    exact ⟨hl.1, rfl⟩
  · cases h
    exact ⟨hl.1, rfl⟩
  · split at h
    · cases h
      exact ⟨hl.1, rfl⟩
    · cases h
  · cases h

theorem Legible.cases {opened : Bool} (h : tok.Legible opened) :
    tok = openBracket ∨ tok = closeBracket ∨ (∃ s, tok = word s) ∨
      ∃ kind fields, (∀ f ∈ fields, IsField f) ∧ ofFields? kind fields = some tok := by
  cases tok with
  | openBracket => exact .inl rfl
  | closeBracket => exact .inr (.inl rfl)
  | word s => exact .inr (.inr (.inl ⟨s, rfl⟩))
  | lexical category pos formerPos form predicate =>
    refine .inr (.inr (.inr ⟨'L', _, h.2, ?_⟩))
    cases predicate <;> rfl
  | derived category head arity =>
    obtain ⟨_, hc, hh, ha⟩ := h
    refine .inr (.inr (.inr ⟨'T', [category, head, arity], ?_, by simp [ofFields?, hh, ha]⟩))
    intro f hf
    simp only [List.mem_cons, List.not_mem_nil, or_false] at hf
    rcases hf with rfl | rfl | rfl
    · exact hc
    · exact isField_of_isNumeral hh
    · exact isField_of_isNumeral ha

end Header

/-- The texts of one token, from its first character to its last. -/
inductive Spells : Token → List Char → Prop
  | openBracket : Spells openBracket ['(']
  | closeBracket : Spells closeBracket [')']
  | word {s} : Spells (word s) s.toList
  | header {kind body tok} : '>' ∉ body →
      ofFields? kind ((words body).map String.ofList) = some tok →
      Spells tok ('<' :: kind :: (body ++ ['>']))

variable {opened : Bool} {tok : Token} {cs rest : List Char}

theorem Spells.head {m : List Char} (h : tok.Spells m) (hl : tok.Legible opened) :
    ∃ c more, m = c :: more ∧ isBlank c = false := by
  cases h with
  | openBracket => exact ⟨'(', [], rfl, rfl⟩
  | closeBracket => exact ⟨')', [], rfl, rfl⟩
  | @word s =>
    obtain ⟨c, more, he⟩ := List.exists_cons_of_ne_nil hl.1.1
    exact ⟨c, more, he, (hl.1.2 c (by rw [he]; exact List.mem_cons_self)).1⟩
  | header => exact ⟨'<', _, rfl, rfl⟩

/-- The lexemes of a token come before all others as one text of the token does. -/
theorem spaced_lexemes (h : tok.Legible opened) {ls : List Lexeme} :
    Spaced (tok.lexemes ++ ls) cs ↔
      ∃ gap m rest, Blanks gap ∧ cs = gap ++ (m ++ rest) ∧ tok.Spells m ∧ Spaced ls rest ∧
        (tok.isWord = true → StartsText ls → StartsBlank rest) := by
  constructor
  · intro hs
    rcases h.cases with rfl | rfl | ⟨s, rfl⟩ | ⟨kind, fields, hf, htok⟩
    · obtain ⟨gap, rest, hg, rfl, hrest⟩ := Spaced.sign_iff.mp hs
      exact ⟨gap, _, rest, hg, rfl, .openBracket, hrest, fun hw => by cases hw⟩
    · obtain ⟨gap, rest, hg, rfl, hrest⟩ := Spaced.sign_iff.mp hs
      exact ⟨gap, _, rest, hg, rfl, .closeBracket, hrest, fun hw => by cases hw⟩
    · obtain ⟨gap, rest, hg, rfl, hrest, hblank⟩ := Spaced.text_iff.mp hs
      exact ⟨gap, _, rest, hg, rfl, .word, hrest, fun _ => hblank⟩
    · rw [(header_of_fields? hf htok).2, List.append_assoc, List.cons_append] at hs
      obtain ⟨gap, after, hg, rfl, hafter⟩ := Spaced.sign_iff.mp hs
      obtain ⟨body, rest, rfl, hno, rfl, hrest⟩ := hafter.exists_body hf
      refine ⟨gap, _, rest, hg, ?_, .header hno htok, hrest, fun hw => ?_⟩
      · simp
      · rw [(opened_of_fields? htok h).2] at hw
        cases hw
  · rintro ⟨gap, m, rest, hg, rfl, hm, hrest, hblank⟩
    cases hm with
    | openBracket => exact .sign hg hrest
    | closeBracket => exact .sign hg hrest
    | word => exact .text hg hrest (hblank rfl)
    | @header kind body _ hno htok =>
      rw [(header_of_fields? (fun f => isField_of_mem_words hno) htok).2, List.append_assoc,
        List.cons_append]
      have hend : Spaced (.sign ">" :: ls) ('>' :: rest) := .sign blanks_nil hrest
      have hsign := Spaced.sign (s := String.ofList ['<', kind]) hg (hend.words body)
      simpa using hsign

/-- After a word there is no more of it. -/
def Ends (tok : Token) (rest : List Char) : Prop :=
  tok.isWord = true → ∀ c ∈ rest.head?, isWordChar c = false

theorem next?_of_isWordChar {c : Char} (hc : isWordChar c = true) (opened : Bool)
    (cs : List Char) : next? opened (c :: cs) =
      if opened && c = '<' then header? cs
      else some (word (String.ofList ((c :: cs).takeWhile isWordChar)),
        (c :: cs).dropWhile isWordChar) := by
  rw [next?]
  · rintro rfl
    cases hc
  · rintro rfl
    cases hc

theorem isWord_takeWhile {c : Char} (hc : isWordChar c = true) (cs : List Char) :
    IsWord (String.ofList ((c :: cs).takeWhile isWordChar)) := by
  rw [IsWord, String.toList_ofList]
  refine ⟨by simp [hc], fun d hd => ?_⟩
  exact isWordChar_iff.mp (List.all_eq_true.mp List.all_takeWhile d hd)

/-- What is read at the head of a text without blanks in front is one text of the token. -/
theorem spells_of_next? (hcs : ∀ c ∈ cs.head?, isBlank c = false)
    (h : next? opened cs = some (tok, rest)) :
    tok.Legible opened ∧ tok.Ends rest ∧ ∃ m, cs = m ++ rest ∧ tok.Spells m := by
  cases cs with
  | nil => cases h
  | cons c cs =>
    by_cases hopen : c = '('
    · subst hopen
      cases h
      exact ⟨trivial, fun hw => (by cases hw), _, rfl, .openBracket⟩
    by_cases hclose : c = ')'
    · subst hclose
      cases h
      exact ⟨trivial, fun hw => (by cases hw), _, rfl, .closeBracket⟩
    have hc : isWordChar c = true := isWordChar_iff.mpr ⟨hcs c rfl, hopen, hclose⟩
    rw [next?_of_isWordChar hc] at h
    by_cases hheader : (opened && c = '<') = true
    · rw [if_pos hheader] at h
      rw [Bool.and_eq_true, decide_eq_true_eq] at hheader
      obtain ⟨rfl, rfl⟩ := hheader
      cases cs with
      | nil => cases h
      | cons kind cs =>
        obtain ⟨body, hno, rfl, htok⟩ := header?_eq_some.mp h
        have hl : tok.Legible true :=
          (header_of_fields? (fun f => isField_of_mem_words hno) htok).1
        refine ⟨hl, fun hw => ?_, _, by simp, .header hno htok⟩
        rw [(opened_of_fields? htok hl).2] at hw
        cases hw
    · rw [if_neg hheader] at h
      cases h
      refine ⟨⟨isWord_takeWhile hc cs, fun ho => ?_⟩, fun _ d => head_dropWhile, _, ?_, .word⟩
      · rw [String.toList_ofList, List.takeWhile_cons_of_pos hc, List.head?_cons]
        intro he
        cases he
        exact hheader (by rw [ho]; rfl)
      · rw [String.toList_ofList, List.takeWhile_append_dropWhile]

theorem next?_of_spells {m : List Char} (hl : tok.Legible opened) (hends : tok.Ends rest)
    (hm : tok.Spells m) : next? opened (m ++ rest) = some (tok, rest) := by
  cases hm with
  | openBracket => rfl
  | closeBracket => rfl
  | @word s =>
    obtain ⟨⟨hne, hchars⟩, hlabel⟩ := hl
    have hs : ∀ c ∈ s.toList, isWordChar c = true := fun c hc => isWordChar_iff.mpr (hchars c hc)
    have htake := takeWhile_run hs (hends rfl)
    have hdrop := dropWhile_run hs (hends rfl)
    obtain ⟨c, more, he⟩ := List.exists_cons_of_ne_nil hne
    have hno : ¬(opened && c = '<') = true := by
      rw [Bool.and_eq_true, decide_eq_true_eq]
      rintro ⟨ho, rfl⟩
      exact hlabel ho (by rw [he]; rfl)
    rw [he, List.cons_append] at htake hdrop ⊢
    rw [next?_of_isWordChar (hs c (by rw [he]; exact List.mem_cons_self)), if_neg hno, htake,
      hdrop, ← he, String.ofList_toList]
  | @header kind body _ hno htok =>
    rw [(opened_of_fields? htok hl).1]
    have hheader : header? (kind :: (body ++ '>' :: rest)) = some (tok, rest) :=
      header?_eq_some.mpr ⟨body, hno, rfl, htok⟩
    simpa [next?_of_isWordChar (c := '<') (by decide)] using hheader

/-- What follows a word in the right way ends it. -/
theorem Chain.ends {ts : List Token} (h : Chain false ts) (hs : Spaced (spelling ts) rest)
    (hblank : StartsText (spelling ts) → StartsBlank rest) :
    ∀ c ∈ rest.head?, isWordChar c = false := by
  cases ts with
  | nil =>
    cases hs with
    | done hg => exact fun c hc => isWordChar_of_isBlank (hg c (List.mem_of_mem_head? hc))
  | cons tok ts =>
    rw [spelling_cons] at hs hblank
    obtain ⟨gap, m, after, hg, rfl, hm, _⟩ := (spaced_lexemes h.1).mp hs
    have hsign {c : Char} (hm : m = [c]) (hc : isWordChar c = false) :
        ∀ d ∈ (gap ++ (m ++ after)).head?, isWordChar d = false := by
      subst hm
      intro d hd
      cases gap with
      | nil =>
        cases hd
        exact hc
      | cons e gap =>
        cases hd
        exact isWordChar_of_isBlank (hg _ List.mem_cons_self)
    cases hm with
    | openBracket => exact hsign rfl rfl
    | closeBracket => exact hsign rfl rfl
    | word =>
      intro c hc
      exact isWordChar_of_isBlank ((hblank ⟨_, _, rfl⟩).head c hc)
    | header _ htok => cases (opened_of_fields? htok h.1).1

/-- A word that is read to its end has a blank before the next. -/
theorem Chain.startsBlank {ts : List Token} (h : Chain false ts) (hs : Spaced (spelling ts) rest)
    (hends : ∀ c ∈ rest.head?, isWordChar c = false) (ht : StartsText (spelling ts)) :
    StartsBlank rest := by
  obtain ⟨s, more, he⟩ := ht
  cases ts with
  | nil => cases he
  | cons tok ts =>
    rw [spelling_cons] at hs
    obtain ⟨gap, m, after, hg, rfl, hm, _⟩ := (spaced_lexemes h.1).mp hs
    cases gap with
    | cons c gap => exact ⟨c, _, rfl, hg c List.mem_cons_self⟩
    | nil =>
      cases hm with
      | openBracket => cases he
      | closeBracket => cases he
      | @word w =>
        obtain ⟨hne, hchars⟩ := h.1.1
        obtain ⟨c, more, hw⟩ := List.exists_cons_of_ne_nil hne
        have hc : isWordChar c = true :=
          isWordChar_iff.mpr (hchars c (by rw [hw]; exact List.mem_cons_self))
        have hno : isWordChar c = false := hends c (by rw [hw]; rfl)
        rw [hc] at hno
        cases hno
      | header _ htok => cases (opened_of_fields? htok h.1).1

theorem opens_of_isWord (h : tok.isWord = true) : tok.opens = false := by
  cases tok <;> first | rfl | cases h

theorem spaced_of_cut? {ts : List Token} (h : cut? opened cs = some ts) :
    Chain opened ts ∧ Spaced (spelling ts) cs := by
  fun_induction cut? opened cs generalizing ts with
  | case1 opened cs hskip =>
    cases h
    exact ⟨trivial, .done (blanks_of_skipBlanks hskip)⟩
  | case2 opened cs _ ih =>
    obtain ⟨gap, hg, he, hhead⟩ := exists_gap cs
    obtain ⟨⟨tok, rest⟩, htok, h⟩ := Option.bind_eq_some_iff.mp h
    obtain ⟨hl, hends, m, hm, hspells⟩ := spells_of_next? hhead htok
    by_cases hlt : rest.length < cs.length
    · simp only [if_pos hlt] at h
      obtain ⟨more, hmore, rfl⟩ := Option.map_eq_some_iff.mp h
      obtain ⟨hchain, hspaced⟩ := ih tok rest hlt hmore
      refine ⟨⟨hl, hchain⟩, ?_⟩
      rw [spelling_cons]
      refine (spaced_lexemes hl).mpr ⟨gap, m, rest, hg, by rw [← hm, ← he], hspells, hspaced, ?_⟩
      intro hw
      rw [opens_of_isWord hw] at hchain
      exact hchain.startsBlank hspaced (hends hw)
    · simp only [if_neg hlt] at h
      cases h

theorem cut?_append {gap m : List Char} (hg : Blanks gap) (hl : tok.Legible opened)
    (hm : tok.Spells m) (hends : tok.Ends rest) :
    cut? opened (gap ++ (m ++ rest)) = (cut? tok.opens rest).map (tok :: ·) := by
  have hnext : next? opened (m ++ rest) = some (tok, rest) := next?_of_spells hl hends hm
  obtain ⟨c, more, rfl, hc⟩ := hm.head hl
  have hvisible : ∀ d ∈ (c :: more ++ rest).head?, isBlank d = false := by
    intro d hd
    cases hd
    exact hc
  have hlt : rest.length < (gap ++ (c :: more ++ rest)).length := by
    simp only [List.length_append, List.length_cons]
    omega
  rw [cut?, skipBlanks_append hg hvisible]
  change (next? opened (c :: more ++ rest)).bind _ = _
  rw [hnext, Option.bind_some]
  simp only [if_pos hlt]

/-- A word ends where the rest is what can follow it. -/
theorem Chain.ends_of_blank {ts : List Token} (hchain : Chain tok.opens ts)
    (hspaced : Spaced (spelling ts) rest)
    (hblank : tok.isWord = true → StartsText (spelling ts) → StartsBlank rest) : tok.Ends rest := by
  intro hw
  rw [opens_of_isWord hw] at hchain
  exact hchain.ends hspaced (hblank hw)

theorem cut?_of_spaced {ts : List Token} (hchain : Chain opened ts)
    (hspaced : Spaced (spelling ts) cs) : cut? opened cs = some ts := by
  induction ts generalizing opened cs with
  | nil =>
    cases hspaced with
    | done hg => rw [cut?, skipBlanks_blanks hg]
  | cons tok ts ih =>
    obtain ⟨hl, hchain⟩ := hchain
    rw [spelling_cons] at hspaced
    obtain ⟨gap, m, rest, hg, rfl, hm, hrest, hblank⟩ := (spaced_lexemes hl).mp hspaced
    rw [cut?_append hg hl hm (hchain.ends_of_blank hrest hblank), ih hchain hrest]
    rfl

/-- A text is cut into exactly the tokens that it is a spelling of. -/
theorem cut?_eq_some {ts : List Token} :
    cut? opened cs = some ts ↔ Chain opened ts ∧ Spaced (spelling ts) cs :=
  ⟨spaced_of_cut?, fun ⟨hchain, hspaced⟩ => cut?_of_spaced hchain hspaced⟩

end Token

end TreeQuery.Bracket
