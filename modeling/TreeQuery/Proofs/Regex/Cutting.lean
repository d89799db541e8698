import Mathlib.Data.List.TakeWhile
import TreeQuery.Proofs.Regex.Escapes

namespace TreeQuery.Regex.Token

section Classes

variable {spaced inClass : Bool}

theorem classStart_of_caret {cs rest : List Char} (h : skip spaced cs = '^' :: rest) :
    classStart spaced cs = (true, skip spaced rest) := by
  rw [classStart, h]
  rfl

theorem classStart_of_ne {cs : List Char} (h : (skip spaced cs).head? ≠ some '^') :
    classStart spaced cs = (false, skip spaced cs) := by
  unfold classStart
  split
  · rename_i he
    exact absurd (by rw [he]; rfl) h
  · rfl

theorem halts_classStart (spaced : Bool) (cs : List Char) : Halts (classStart spaced) cs := by
  rcases hskip : skip spaced cs with _ | ⟨c, rest⟩
  · refine .inr ⟨by rw [classStart_of_ne (by simp [hskip]), hskip], fun more => ?_⟩
    rcases skip_append_paren hskip with ⟨_, hmore⟩ | hmore
    · exact .inl ((suffix_of_classStart _ _).trans (hmore more))
    · exact .inr (by rw [classStart_of_ne (by simp [hmore]), hmore])
  by_cases hc : c = '^'
  · subst hc
    have hmore (more : List Char) :
        classStart spaced (cs ++ more) = (true, skip spaced (rest ++ more)) :=
      classStart_of_caret (by rw [skip_of_cons hskip]; rfl)
    rcases hrest : skip spaced rest with _ | ⟨d, left⟩
    · refine .inr ⟨by rw [classStart_of_caret hskip, hrest], fun more => ?_⟩
      rw [hmore]
      exact (skip_append_paren hrest).imp (·.2 more) (· more)
    · exact .inl ⟨true, d, left, fun more => by rw [hmore, skip_of_cons hrest]⟩
  · refine .inl ⟨false, c, rest, fun more => ?_⟩
    rw [classStart_of_ne (by simp [skip_of_cons hskip, hc]), skip_of_cons hskip]

theorem classOpen?_of_gather {c : Char} {cs hyphens left : List Char} (hc : c ≠ ']')
    (h : gather (· = '-') spaced false (classStart spaced cs).2 = (hyphens, c :: left)) :
    classOpen? spaced cs = some (classOpen (classStart spaced cs).1 hyphens, c :: left) := by
  rw [classOpen?_eq, h]
  cases hyphens with
  | nil => simp [hc]
  | cons h hyphens => rfl

theorem classOpen?_meets (cs : List Char) : Meets spaced inClass (classOpen? spaced) cs := by
  have hmember (more hyphens : List Char)
      (h : gather (· = '-') spaced false (classStart spaced (cs ++ ')' :: more)).2 =
        (hyphens, ')' :: more)) (tok rest)
      (hr : classOpen? spaced (cs ++ ')' :: more) = some (tok, rest)) :
      Resumes spaced inClass more tok rest := by
    rw [classOpen?_of_gather (by decide) h] at hr
    cases hr
    exact .member _ _
  rcases halts_classStart spaced cs with ⟨negated, c, rest, hmore⟩ | ⟨hnil, hparen⟩
  · have hself : classStart spaced cs = (negated, c :: rest) := by simpa using hmore []
    rcases hgather : gather (· = '-') spaced false (c :: rest) with ⟨hyphens, _ | ⟨d, left⟩⟩
    · refine .taken (by rw [classOpen?_eq, hself, hgather]; cases hyphens <;> rfl)
        fun more tok rest hr => ?_
      rcases gather_append_paren rfl hgather with ⟨_, hleft⟩ | hleft
      · refine .behind ((suffix_of_classOpen? hr).trans ?_)
        rw [hmore]
        exact hleft more
      · exact hmember more hyphens (by rw [hmore, hleft]) tok rest hr
    · refine .left fun more => ?_
      rw [classOpen?_eq, classOpen?_eq, hmore, hself, gather_of_cons hgather, hgather]
      cases hyphens with
      | nil => by_cases hd : d = ']' <;> simp [hd, beforeParen]
      | cons h hyphens => rfl
  · refine .taken (by rw [classOpen?_eq, hnil]; rfl) fun more tok rest hr => ?_
    rcases hparen more with hleft | hleft
    · exact .behind (((suffix_of_classOpen? hr).trans (suffix_of_gather _ _ _ _)).trans hleft)
    · exact hmember more [] (by rw [hleft, gather_paren rfl]) tok rest hr

/-- The name of a class, which ends with a colon and a bracket. -/
def posixName? (negated : Bool) (cs : List Char) : Option (Token × List Char) :=
  match cs.span (· != ':') with
  | (name, ':' :: ']' :: rest) =>
    (CharClass.posix.lookup (String.ofList name)).map fun cls => (posix cls negated, rest)
  | _ => none

/-- There is no parenthesis in the name of a class. -/
theorem lookup_posix {name : List Char} (h : ')' ∈ name) :
    CharClass.posix.lookup (String.ofList name) = none := by
  rw [Option.eq_none_iff_forall_ne_some]
  intro cls hcls
  obtain ⟨before, after, he, _⟩ := List.lookup_eq_some_iff.mp hcls
  have hnames : ∀ named ∈ CharClass.posix, ')' ∉ named.1.toList := by decide
  have hnone : ')' ∉ (String.ofList name).toList :=
    hnames (String.ofList name, cls) (by rw [he]; simp)
  rw [String.toList_ofList] at hnone
  exact hnone h

theorem posixName?_leaves (negated : Bool) (cs : List Char) : Leaves (posixName? negated) cs := by
  rcases hgather : gather (· != ':') false false cs with ⟨name, _ | ⟨c, rest⟩⟩
  · have hself : posixName? negated cs = none := by rw [posixName?, span_eq_gather, hgather]
    refine leaves_of_none hself fun more => ?_
    have hspan : cs.dropWhile (· != ':') = [] := by
      rw [← span_eq_gather, List.span_eq_takeWhile_dropWhile] at hgather
      exact congrArg Prod.snd hgather
    have hname : ')' ∈ ((cs ++ ')' :: more).span (· != ':')).1 := by
      rw [List.span_eq_takeWhile_dropWhile]
      simp [List.takeWhile_append_of_pos (List.dropWhile_eq_nil_iff.mp hspan)]
    unfold posixName?
    split
    · rename_i he
      rw [he] at hname
      rw [lookup_posix hname]
      rfl
    · rfl
  · intro more
    rw [posixName?, posixName?, span_eq_gather, span_eq_gather, gather_of_cons hgather, hgather]
    by_cases hc : c = ':'
    · subst hc
      rcases rest with _ | ⟨d, rest⟩
      · rfl
      · by_cases hd : d = ']'
        · subst hd
          simp only [List.cons_append, Option.map_map]
          rfl
        · simp [hd]
    · simp [hc]

theorem posix?_of_ne {cs : List Char} (h : cs.head? ≠ some '^') :
    posix? cs = posixName? false cs := by
  unfold posix?
  split
  rename_i he
  split at he
  · exact absurd rfl h
  · cases he
    rfl

theorem posix?_leaves (cs : List Char) : Leaves posix? cs := by
  rcases cs with _ | ⟨c, cs⟩
  · exact posixName?_leaves false []
  · by_cases hc : c = '^'
    · subst hc
      exact posixName?_leaves true cs
    · intro more
      have hne (ds : List Char) : (c :: ds).head? ≠ some '^' := by simpa using hc
      rw [posix?_of_ne (hne cs), List.cons_append, posix?_of_ne (hne _), ← List.cons_append,
        posixName?_leaves]

variable [Unicode.Tables]

theorem classPrimitive?_meets (c : Char) (cs : List Char) :
    Meets spaced inClass (classPrimitive? spaced) (c :: cs) := by
  by_cases hc : c = '\\'
  · subst hc
    exact (escape?_meets cs).of_eq rfl fun more => rfl
  · have hread (cs : List Char) : classPrimitive? spaced (c :: cs) = some (literal c, cs) := by
      rw [classPrimitive?]
      exact hc
    exact .left fun more => by rw [List.cons_append, hread, hread]; rfl

theorem isEscape_of_classPrimitive? {cs rest : List Char} {tok : Token}
    (h : classPrimitive? spaced cs = some (tok, rest)) : tok.isEscape = true := by
  unfold classPrimitive? at h
  split at h
  · cases h
  · exact isEscape_of_escape? h
  · cases h
    rfl

/-- Two members that make a range. -/
def range? : Token → Token → Option Token
  | literal a, literal b => if a ≤ b then some (classRange a b) else none
  | _, _ => none

theorem rangeTo?_eq (first : Token) (cs : List Char) :
    rangeTo? spaced first cs = andThen? (classPrimitive? spaced) (range? first) cs := by
  rw [rangeTo?, andThen?]
  refine congrArg _ (funext fun x => ?_)
  obtain ⟨last, rest⟩ := x
  cases first with
  | literal a =>
    cases last with
    | literal b =>
      simp only [range?]
      split <;> rfl
    | _ => rfl
  | _ => rfl

theorem rangeTo?_meets (first : Token) (c : Char) (cs : List Char) :
    Meets spaced inClass (rangeTo? spaced first) (c :: cs) := by
  suffices h : Meets spaced inClass (andThen? (classPrimitive? spaced) (range? first))
      (c :: cs) from h.of_eq (rangeTo?_eq first _) fun more => rangeTo?_eq first _
  have hlast : Meets spaced false (classPrimitive? spaced) (c :: cs) := classPrimitive?_meets c cs
  cases hlast with
  | left h => exact .left (h.andThen _)
  | hidden last hself hparen h =>
    cases hrange : range? first last with
    | none =>
      refine .taken ?_ fun more tok rest hr => .behind (h.andThen _ more tok rest hr)
      simp only [andThen?, hself, Option.bind_some, hrange, Option.map_none]
    | some range =>
      refine .hidden range ?_ ?_ (h.andThen _)
      · simp only [andThen?, hself, Option.bind_some, hrange, Option.map_some]
      · simp only [andThen?, hparen, Option.bind_some, hrange, Option.map_some]
  | taken hnone h =>
    refine .taken (by rw [andThen?, hnone]; rfl) fun more tok rest hr => ?_
    obtain ⟨⟨last, left⟩, hlast, hr⟩ := Option.bind_eq_some_iff.mp hr
    obtain ⟨range, hrange, he⟩ := Option.map_eq_some_iff.mp hr
    cases he
    cases h more last rest hlast with
    | behind h => exact .behind h
    | member | braces => cases first <;> cases hrange
    | hyphen _ _ hclass => cases hclass

theorem afterFirst?_of_ne {first : Token} {cs : List Char} (h : (skip spaced cs).head? ≠ some '-') :
    afterFirst? spaced first cs = some (first, skip spaced cs) := by
  unfold afterFirst?
  split
  · rename_i he
    exact absurd (by rw [he]; rfl) h
  · rfl

theorem afterFirst?_of_hyphen (first : Token) {c : Char} {cs after next : List Char}
    (h : skip spaced cs = '-' :: after) (hnext : skip spaced after = c :: next) :
    afterFirst? spaced first cs =
      if c = ']' || c = '-' then some (first, '-' :: after)
      else rangeTo? spaced first (c :: next) := by
  unfold afterFirst?
  rw [h]
  simp only [hnext, List.head?_cons, Option.some_inj]

/-- A hyphen behind which nothing is visible but the parenthesis. -/
theorem resumes_of_hyphen {first tok : Token} {cs after more rest : List Char}
    (hfirst : first.isEscape = true) (h : skip spaced cs = '-' :: after)
    (hafter : skip spaced after = [])
    (hr : afterFirst? spaced first (cs ++ ')' :: more) = some (tok, rest)) :
    Resumes spaced true more tok rest := by
  have hparen := skip_of_cons h (')' :: more)
  rcases skip_append_paren hafter with ⟨_, hmore⟩ | hmore
  · rcases hnext : skip spaced (after ++ ')' :: more) with _ | ⟨c, next⟩
    · rw [List.cons_append] at hparen
      simp only [afterFirst?, hparen, hnext] at hr
      cases hr
    rw [afterFirst?_of_hyphen first hparen hnext] at hr
    split at hr
    · cases hr
      exact .hyphen first after rfl hfirst hafter
    · exact .behind ((suffix_of_rangeTo? hr).trans (hnext ▸ hmore more))
  · rw [afterFirst?_of_hyphen first hparen (hmore more), if_neg (by decide), rangeTo?_eq] at hr
    obtain ⟨⟨last, left⟩, hlast, hr⟩ := Option.bind_eq_some_iff.mp hr
    obtain ⟨range, _, he⟩ := Option.map_eq_some_iff.mp hr
    cases he
    cases hlast
    exact .behind List.suffix_rfl

theorem afterFirst?_meets {first : Token} (hfirst : first.isEscape = true) (cs : List Char) :
    Meets spaced true (afterFirst? spaced first) cs := by
  rcases hskip : skip spaced cs with _ | ⟨c, after⟩
  · have hself : afterFirst? spaced first cs = some (first, []) := by
      rw [afterFirst?_of_ne (by simp [hskip]), hskip]
    rcases skip_append_paren hskip with ⟨hparen, hmore⟩ | hmore
    · refine .hidden first hself ?_ (overruns_of_hidden (skips_afterFirst? first) hmore)
      rw [afterFirst?_of_ne (by simp [hparen]), hparen]
    · refine .left fun more => ?_
      rw [hself, afterFirst?_of_ne (by simp [hmore]), hmore]
      rfl
  have hparen := skip_of_cons hskip
  by_cases hc : c = '-'
  · subst hc
    rcases hnext : skip spaced after with _ | ⟨d, next⟩
    · refine .taken (by simp only [afterFirst?, hskip, hnext]) fun more tok rest hr => ?_
      exact resumes_of_hyphen hfirst hskip hnext hr
    · have hself := afterFirst?_of_hyphen first hskip hnext
      have hread (more : List Char) :=
        afterFirst?_of_hyphen first (hparen (')' :: more)) (skip_of_cons hnext (')' :: more))
      by_cases hmark : (d = ']' || d = '-') = true
      · rw [if_pos hmark] at hself
        refine .left fun more => ?_
        rw [hread, if_pos hmark, hself]
        rfl
      · rw [if_neg hmark] at hself
        exact (rangeTo?_meets first d next).of_eq hself
          fun more => (hread more).trans (if_neg hmark)
  · refine .left fun more => ?_
    rw [afterFirst?_of_ne (by simp [hparen, hc]), afterFirst?_of_ne (by simp [hskip, hc]), hparen,
      hskip]
    rfl

theorem member?_meets (c : Char) (cs : List Char) :
    Meets spaced true (member? spaced) (c :: cs) := by
  have hfirst : Meets spaced false (classPrimitive? spaced) (c :: cs) := classPrimitive?_meets c cs
  cases hfirst with
  | left h =>
    cases hread : classPrimitive? spaced (c :: cs) with
    | none =>
      refine .left fun more => ?_
      rw [member?_eq, member?_eq, h, hread]
      rfl
    | some read =>
      obtain ⟨first, rest⟩ := read
      have hself : member? spaced (c :: cs) = afterFirst? spaced first rest := by
        rw [member?_eq, hread]
        rfl
      have hparen (more : List Char) : member? spaced (c :: cs ++ ')' :: more) =
          afterFirst? spaced first (rest ++ ')' :: more) := by
        rw [member?_eq, h, hread]
        rfl
      exact (afterFirst?_meets (isEscape_of_classPrimitive? hread) rest).of_eq hself hparen
  | hidden first hself hparen h =>
    have hnil : afterFirst? spaced first [] = some (first, []) := rfl
    refine .hidden first ?_ ?_ fun more tok rest hr => ?_
    · rw [member?_eq, hself]
      exact hnil
    · rw [member?_eq, hparen]
      exact hnil
    · obtain ⟨⟨first, left⟩, hfirst, hr⟩ := Option.bind_eq_some_iff.mp hr
      exact ((skips_afterFirst? first).suffix hr).trans (h more first left hfirst)
  | taken hnone h =>
    refine .taken (by rw [member?_eq, hnone]; rfl) fun more tok rest hr => ?_
    obtain ⟨⟨first, left⟩, hfirst, hr⟩ := Option.bind_eq_some_iff.mp hr
    cases h more first left hfirst with
    | behind h => exact .behind (((skips_afterFirst? first).suffix hr).trans h)
    | member => cases isEscape_of_classPrimitive? hfirst
    | braces blanks hskip =>
      have hbrace : skip spaced ('{' :: blanks ++ ')' :: more) = '{' :: blanks ++ ')' :: more := by
        cases spaced <;> rfl
      change afterFirst? spaced (word .boundary) ('{' :: blanks ++ ')' :: more) = _ at hr
      rw [afterFirst?_of_ne (by rw [hbrace]; simp), hbrace] at hr
      cases hr
      exact .braces blanks hskip
    | hyphen _ _ hclass => cases hclass

end Classes

section Tokens

variable {spaced inClass : Bool}

theorem dropLazy_append_paren (cs more : List Char) :
    dropLazy (cs ++ ')' :: more) = dropLazy cs ++ ')' :: more := by
  rcases cs with _ | ⟨c, cs⟩
  · rfl
  · by_cases hc : c = '?'
    · subst hc
      rfl
    · simp [dropLazy, hc]

variable [Unicode.Tables]

theorem repetition_meets (cs : List Char) :
    Meets spaced inClass (outside? spaced) ('{' :: cs) := by
  rcases boundsEnd spaced cs with ⟨min, max, rest, hmore⟩ | ⟨hnone, hparen⟩
  · have hread (more : List Char) : outside? spaced ('{' :: cs ++ more) =
        some (repetition min max, dropLazy (skip spaced (rest ++ more))) := by
      rw [List.cons_append, outside?, hmore]
      rfl
    have hself := hread []
    rw [List.append_nil, List.append_nil] at hself
    rcases hskip : skip spaced rest with _ | ⟨c, left⟩
    · rw [hskip] at hself
      rcases skip_append_paren hskip with ⟨hclosed, hover⟩ | hvisible
      · refine .hidden (repetition min max) hself (by rw [hread, hclosed]; rfl) ?_
        intro more tok left hr
        rw [hread] at hr
        cases hr
        exact (suffix_of_dropLazy _).trans (hover more)
      · refine .left fun more => ?_
        rw [hread, hself, hvisible]
        rfl
    · refine .left fun more => ?_
      rw [hread, hself, skip_of_cons hskip, dropLazy_append_paren, hskip]
      rfl
  · refine .taken (by rw [outside?, hnone]; rfl) fun more tok rest hr => ?_
    rw [List.cons_append, outside?] at hr
    obtain ⟨⟨min, max, left⟩, hbounds, he⟩ := Option.map_eq_some_iff.mp hr
    cases he
    exact .behind (((suffix_of_dropLazy _).trans (suffix_of_skip _ _)).trans
      (hparen more min max left hbounds))

/-- What becomes of the parenthesis outside classes. -/
theorem outside?_meets (c : Char) (cs : List Char) :
    Meets spaced inClass (outside? spaced) (c :: cs) := by
  by_cases hparen : c = '('
  · exact hparen ▸ (group?_meets cs).of_eq rfl fun more => rfl
  by_cases hbracket : c = '['
  · exact hbracket ▸ (classOpen?_meets cs).of_eq rfl fun more => rfl
  by_cases hbrace : c = '{'
  · exact hbrace ▸ repetition_meets cs
  by_cases hslash : c = '\\'
  · exact hslash ▸ (escape?_meets cs).of_eq rfl fun more => rfl
  refine .left fun more => ?_
  by_cases hlazy : c ∈ ['?', '*', '+']
  · simp only [List.mem_cons, List.not_mem_nil, or_false] at hlazy
    rcases hlazy with rfl | rfl | rfl
    all_goals
      rw [List.cons_append, outside?, outside?, dropLazy_append_paren]
      rfl
  · unfold outside?
    split <;> simp_all [beforeParen]

/-- Nothing but a bracket or a doubled sign is more than a member. -/
theorem inside?_eq_member? {c : Char} {cs : List Char} (hopen : c ≠ '[') (hclose : c ≠ ']')
    (hsign : ¬(cs.head? = some c ∧ c ∈ ['&', '-', '~'])) :
    inside? spaced (c :: cs) = member? spaced (c :: cs) := by
  unfold inside?
  split
  case h_1 he => cases he
  case h_2 he | h_3 he =>
    cases he
    exact absurd rfl hopen
  case h_4 he =>
    cases he
    exact absurd rfl hclose
  case h_5 he | h_6 he | h_7 he =>
    cases he
    exact absurd ⟨rfl, by decide⟩ hsign
  case h_8 => rfl

theorem inside?_bracket {cs : List Char} (h : cs.head? ≠ some ':') :
    inside? spaced ('[' :: cs) = classOpen? spaced cs := by
  rw [inside?]
  rintro rest rfl
  exact h rfl

theorem inside?_colon {rest : List Char} (h : posix? rest = none) :
    inside? spaced ('[' :: ':' :: rest) = classOpen? spaced (':' :: rest) := by
  change (posix? rest <|> _) = _
  rw [h]
  rfl

theorem bracket_meets (cs : List Char) :
    Meets spaced inClass (inside? spaced) ('[' :: cs) := by
  by_cases hcolon : cs.head? = some ':'
  · obtain ⟨rest, rfl⟩ := List.head?_eq_some_iff.mp hcolon
    have hposix := posix?_leaves rest
    cases hname : posix? rest with
    | none =>
      refine (classOpen?_meets (':' :: rest)).of_eq (inside?_colon hname) fun more => ?_
      exact inside?_colon ((hposix more).trans (by rw [hname]; rfl))
    | some read =>
      refine .left fun more => ?_
      change (posix? (rest ++ ')' :: more) <|> _) = (posix? rest <|> _).map _
      rw [hposix, hname]
      rfl
  · refine (classOpen?_meets cs).of_eq (inside?_bracket hcolon) fun more => inside?_bracket ?_
    cases cs <;> simp_all

/-- What becomes of the parenthesis inside a class. -/
theorem inside?_meets (c : Char) (cs : List Char) :
    Meets spaced true (inside? spaced) (c :: cs) := by
  by_cases hopen : c = '['
  · exact hopen ▸ bracket_meets cs
  by_cases hclose : c = ']'
  · exact hclose ▸ .left fun more => rfl
  by_cases hsign : cs.head? = some c ∧ c ∈ ['&', '-', '~']
  · obtain ⟨hhead, hmem⟩ := hsign
    obtain ⟨rest, rfl⟩ := List.head?_eq_some_iff.mp hhead
    refine .left fun more => ?_
    simp only [List.mem_cons, List.not_mem_nil, or_false] at hmem
    rcases hmem with rfl | rfl | rfl <;> rfl
  · refine (member?_meets c cs).of_eq (inside?_eq_member? hopen hclose hsign) fun more => ?_
    refine inside?_eq_member? hopen hclose ?_
    rintro ⟨hhead, hmem⟩
    rcases cs with _ | ⟨d, cs⟩
    · cases hhead
      exact absurd hmem (by decide)
    · exact hsign ⟨hhead, hmem⟩

end Tokens

end TreeQuery.Regex.Token
