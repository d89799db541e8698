import TreeQuery.Proofs.Regex.Gathering

namespace TreeQuery.Regex.Token

open Unicode

/-- The tokens that an escape may stand for. -/
def isEscape : Token → Bool
  | literal _ | textStart | textEnd | word _ | shorthand _ _ | property _ _ => true
  | _ => false

section Readers

variable {α β : Type} {spaced inClass : Bool} {cs : List Char}

/-- What is read with the parenthesis, and what follows it, left over. -/
def beforeParen (more : List Char) (read : α × List Char) : α × List Char :=
  (read.1, read.2 ++ ')' :: more)

/-- A parenthesis at the end of the text, whatever follows it, is left over. -/
def Leaves (read : List Char → Option (α × List Char)) (cs : List Char) : Prop :=
  ∀ more, read (cs ++ ')' :: more) = (read cs).map (beforeParen more)

/-- What is read ends behind the parenthesis, if anything is read. -/
def Overruns (read : List Char → Option (α × List Char)) (cs : List Char) : Prop :=
  ∀ more x rest, read (cs ++ ')' :: more) = some (x, rest) → rest <:+ more

theorem leaves_of_none {read : List Char → Option (α × List Char)} (hnone : read cs = none)
    (h : ∀ more, read (cs ++ ')' :: more) = none) : Leaves read cs := fun more => by
  rw [h, hnone]
  rfl

theorem Leaves.of_some {read : List Char → Option (α × List Char)} {more rest : List Char} {x : α}
    (h : Leaves read cs) (hr : read (cs ++ ')' :: more) = some (x, rest ++ ')' :: more)) :
    read cs = some (x, rest) := by
  rw [h] at hr
  obtain ⟨⟨x', rest'⟩, hself, he⟩ := Option.map_eq_some_iff.mp hr
  simp only [beforeParen, Prod.mk.injEq, List.append_cancel_right_eq] at he
  rw [hself, he.1, he.2]

theorem overruns_of_hidden {read : List Char → Option (α × List Char)} (hread : Skips spaced read)
    (h : ∀ more, skip spaced (cs ++ ')' :: more) <:+ more) : Overruns read cs :=
  fun more _ _ hr => (hread _ _ _ hr).trans (h more)

/-- A reader that makes something of what another one reads. -/
def andThen? (read : List Char → Option (α × List Char)) (f : α → Option β) (cs : List Char) :
    Option (β × List Char) :=
  (read cs).bind fun (x, rest) => (f x).map (·, rest)

theorem Leaves.andThen {read : List Char → Option (α × List Char)} (h : Leaves read cs)
    (f : α → Option β) : Leaves (andThen? read f) cs := by
  intro more
  rw [andThen?, andThen?, h]
  cases read cs with
  | none => rfl
  | some x =>
    simp only [Option.map_some, Option.bind_some, Option.map_map]
    rfl

theorem Overruns.andThen {read : List Char → Option (α × List Char)} (h : Overruns read cs)
    (f : α → Option β) : Overruns (andThen? read f) cs := by
  intro more y rest hr
  obtain ⟨⟨x, rest'⟩, hx, hy⟩ := Option.bind_eq_some_iff.mp hr
  obtain ⟨_, _, he⟩ := Option.map_eq_some_iff.mp hy
  cases he
  exact h more x _ hx

/-- Where the text goes on behind a token that is there only if the parenthesis is. -/
inductive Resumes (spaced inClass : Bool) (more : List Char) : Token → List Char → Prop
  | behind {tok rest} (h : rest <:+ more) : Resumes spaced inClass more tok rest
  /-- The parenthesis is the first member of a class. -/
  | member (negated literals) :
      Resumes spaced inClass more (classOpen negated literals) (')' :: more)
  /-- It stands in braces that name no word boundary. -/
  | braces (blanks) (hskip : skip spaced blanks = []) :
      Resumes spaced inClass more (word .boundary) ('{' :: blanks ++ ')' :: more)
  /-- It stands behind a hyphen that makes no range. -/
  | hyphen (tok blanks) (hclass : inClass = true) (htok : tok.isEscape = true)
      (hskip : skip spaced blanks = []) :
      Resumes spaced inClass more tok ('-' :: blanks ++ ')' :: more)

/-- What becomes of a closing parenthesis where a reader of tokens comes to it. -/
inductive Meets (spaced inClass : Bool) (read : List Char → Option (Token × List Char))
    (cs : List Char) : Prop
  | left (h : Leaves read cs)
  /-- It is in a comment behind the token. -/
  | hidden (tok : Token) (hself : read cs = some (tok, []))
      (hparen : read (cs ++ [')']) = some (tok, [])) (h : Overruns read cs)
  /-- It completes a token, or spoils it. -/
  | taken (hnone : read cs = none) (h : ∀ more tok rest,
      read (cs ++ ')' :: more) = some (tok, rest) → Resumes spaced inClass more tok rest)

/-- Where two readers read the same, the parenthesis meets the same. -/
theorem Meets.of_eq {read read' : List Char → Option (Token × List Char)} {cs' : List Char}
    (h : Meets spaced inClass read cs) (hself : read' cs' = read cs)
    (hparen : ∀ more, read' (cs' ++ ')' :: more) = read (cs ++ ')' :: more)) :
    Meets spaced inClass read' cs' := by
  cases h with
  | left h => exact .left fun more => by rw [hparen, hself, h]
  | hidden tok hread hclosed h =>
    exact .hidden tok (hself.trans hread) ((hparen []).trans hclosed)
      fun more x rest hr => h more x rest (hparen more ▸ hr)
  | taken hnone h =>
    exact .taken (hself.trans hnone) fun more tok rest hr => h more tok rest (hparen more ▸ hr)

/-- The parenthesis is left over, or it is a part of whatever is read. -/
def Passes (read : List Char → Option (α × List Char)) (cs : List Char) : Prop :=
  Leaves read cs ∨ read cs = none ∧ Overruns read cs

theorem Passes.andThen {read : List Char → Option (α × List Char)} (h : Passes read cs)
    (f : α → Option β) : Passes (andThen? read f) cs := by
  rcases h with h | ⟨hnone, h⟩
  · exact .inl (h.andThen f)
  · exact .inr ⟨by rw [andThen?, hnone]; rfl, h.andThen f⟩

theorem Passes.meets {read : List Char → Option (Token × List Char)} (h : Passes read cs) :
    Meets spaced inClass read cs := by
  rcases h with h | ⟨hnone, h⟩
  · exact .left h
  · exact .taken hnone fun more tok rest hr => .behind (h more tok rest hr)

theorem Passes.of_eq {read read' : List Char → Option (α × List Char)} {cs' : List Char}
    (h : Passes read cs) (hself : read' cs' = read cs)
    (hparen : ∀ more, read' (cs' ++ ')' :: more) = read (cs ++ ')' :: more)) :
    Passes read' cs' := by
  rcases h with h | ⟨hnone, h⟩
  · exact .inl fun more => by rw [hparen, hself, h]
  · exact .inr ⟨hself.trans hnone, fun more x rest hr => h more x rest (hparen more ▸ hr)⟩

/-- A run up to a mark, and the mark. -/
def upTo? (spaced : Bool) (mark : Char) (cs : List Char) : Option (List Char × List Char) :=
  match gather (· != mark) spaced false cs with
  | (inside, _ :: rest) => some (inside, rest)
  | _ => none

theorem upTo?_passes {mark : Char} (hmark : mark ≠ ')') (cs : List Char) :
    Passes (upTo? spaced mark) cs := by
  rcases h : gather (· != mark) spaced false cs with ⟨inside, _ | ⟨c, rest⟩⟩
  · refine .inr ⟨by rw [upTo?, h], fun more x rest hr => ?_⟩
    have hmore := gather_takes_paren (p := (· != mark)) (by simpa using Ne.symm hmark) h more
    unfold upTo? at hr
    split at hr
    · rename_i hread
      cases hr
      rw [hread] at hmore
      exact (List.suffix_cons _ _).trans hmore
    · cases hr
  · refine .inl fun more => ?_
    rw [upTo?, upTo?, gather_of_cons h, h]
    rfl

end Readers

section Escapes

variable {spaced inClass : Bool}

theorem hexDigits?_of_cons {n : Nat} {c : Char} {cs rest : List Char}
    (h : skip spaced cs = c :: rest) : hexDigits? spaced (n + 1) cs =
      if isHexDigit c then andThen? (hexDigits? spaced n) (fun ds => some (c :: ds)) rest
      else none := by
  rw [hexDigits?, h]
  simp only [andThen?]
  cases hexDigits? spaced n rest <;> rfl

theorem hexDigits?_passes (n : Nat) (cs : List Char) : Passes (hexDigits? spaced n) cs := by
  induction n generalizing cs with
  | zero => exact .inl fun more => rfl
  | succ n ih =>
    rcases hskip : skip spaced cs with _ | ⟨c, rest⟩
    · have hnone : hexDigits? spaced (n + 1) cs = none := by rw [hexDigits?, hskip]
      rcases skip_append_paren hskip with ⟨_, hmore⟩ | hmore
      · exact .inr ⟨hnone, overruns_of_hidden (skips_hexDigits? n) hmore⟩
      · refine .inl (leaves_of_none hnone fun more => ?_)
        rw [hexDigits?_of_cons (hmore more)]
        rfl
    · have hself := hexDigits?_of_cons (n := n) hskip
      have hparen (more : List Char) :=
        hexDigits?_of_cons (n := n) (skip_of_cons hskip (')' :: more))
      by_cases hc : isHexDigit c = true
      · simp only [hc, if_true] at hself hparen
        exact ((ih rest).andThen _).of_eq hself hparen
      · simp only [hc] at hself hparen
        exact .inl (leaves_of_none hself hparen)

/-- A code point in hexadecimal, of so many digits or in braces. -/
def hexCode? (spaced : Bool) (digits : Nat) : List Char → Option (Token × List Char)
  | '{' :: cs => andThen? (upTo? spaced '}') (fun inside => (hexChar? inside).map literal) cs
  | cs => andThen? (hexDigits? spaced digits) (fun ds => (hexChar? ds).map literal) cs

theorem hex?_eq (digits : Nat) (cs : List Char) :
    hex? spaced digits cs = hexCode? spaced digits (skip spaced cs) := by
  unfold hex?
  split
  · rename_i inside hskip
    rw [hskip, hexCode?, andThen?, upTo?]
    rcases gather (· != '}') spaced false inside with ⟨digits, _ | ⟨c, rest⟩⟩
    · rfl
    · simp only [Option.bind_some, Option.map_map]
      rfl
  · rename_i hno
    rw [hexCode?.eq_2 _ _ _ hno, andThen?]
    simp only [Option.map_map]
    rfl

theorem upTo?_brace_passes (cs : List Char) : Passes (upTo? spaced '}') cs :=
  upTo?_passes (by decide) cs

theorem hexCode?_passes (digits : Nat) (c : Char) (cs : List Char) :
    Passes (hexCode? spaced digits) (c :: cs) := by
  by_cases hc : c = '{'
  · subst hc
    have hinside := (upTo?_brace_passes cs : Passes (upTo? spaced '}') cs).andThen
      fun inside => (hexChar? inside).map literal
    exact hinside.of_eq rfl fun more => rfl
  · have hread (ds : List Char) := hexCode?.eq_2 spaced digits (c :: ds) (by simpa using hc)
    exact ((hexDigits?_passes digits (c :: cs)).andThen _).of_eq (hread cs) fun more => hread _

theorem hex?_passes (digits : Nat) (cs : List Char) : Passes (hex? spaced digits) cs := by
  rcases hskip : skip spaced cs with _ | ⟨c, rest⟩
  · have hnone : hex? spaced digits cs = none := by
      rw [hex?_eq, hskip]
      cases digits <;> rfl
    rcases skip_append_paren hskip with ⟨_, hmore⟩ | hmore
    · exact .inr ⟨hnone, overruns_of_hidden (skips_hex? digits) hmore⟩
    · refine .inl (leaves_of_none hnone fun more => ?_)
      rw [hex?_eq, hmore, hexCode?.eq_2 _ _ _ (by simp), andThen?]
      cases digits with
      | zero => rfl
      | succ n =>
        have hparen : skip spaced (')' :: more) = ')' :: more := by
          rw [skip, gather_paren rfl]
        rw [hexDigits?_of_cons hparen]
        rfl
  · refine (hexCode?_passes digits c rest).of_eq (by rw [hex?_eq, hskip]) fun more => ?_
    rw [hex?_eq, skip_of_cons hskip, List.cons_append]

theorem property?_passes [Tables] (negated : Bool) (cs : List Char) :
    Passes (property? spaced negated) cs := by
  rcases hskip : skip spaced cs with _ | ⟨c, rest⟩
  · refine .inr ⟨by rw [property?, hskip], ?_⟩
    rcases skip_append_paren hskip with ⟨_, hmore⟩ | hmore
    · exact overruns_of_hidden (skips_property? negated) hmore
    · intro more tok rest hr
      have hparen : property? spaced negated (cs ++ ')' :: more) =
          (Property.named? [')']).map fun p => (property p negated, more) := by
        rw [property?, hmore]
        rfl
      rw [hparen] at hr
      obtain ⟨p, _, he⟩ := Option.map_eq_some_iff.mp hr
      cases he
      exact List.suffix_rfl
  by_cases hc : c = '{'
  · subst hc
    have hread (ds tail : List Char) (h : skip spaced ds = '{' :: tail) :
        property? spaced negated ds = andThen? (upTo? spaced '}')
          (fun inside => (propertyNamed? inside).map fun x =>
            property x.1 (negated != x.2)) tail := by
      unfold property?
      rw [h]
      simp only [andThen?, upTo?]
      rcases gather (· != '}') spaced false tail with ⟨inside, _ | ⟨c, rest⟩⟩
      · rfl
      · simp only [Option.bind_some, Option.map_map]
        rfl
    exact ((upTo?_brace_passes rest).andThen _).of_eq (hread _ _ hskip)
      fun more => hread _ _ (skip_of_cons hskip _)
  · refine .inl fun more => ?_
    unfold property?
    rw [hskip, skip_of_cons hskip]
    simp [beforeParen, Function.comp_def]

/-- The name of a kind of word boundary, and the brace after it. -/
def edge? (spaced : Bool) (cs : List Char) : Option (Token × List Char) :=
  match gather (fun c => c.isAlpha || c = '-') spaced false cs with
  | (name, '}' :: rest) => (edgeNames.lookup (String.ofList name)).map (word ·, rest)
  | _ => none

theorem edge?_passes (cs : List Char) : Passes (edge? spaced) cs := by
  rcases h : gather (fun c => c.isAlpha || c = '-') spaced false cs with ⟨name, _ | ⟨c, rest⟩⟩
  · have hnone : edge? spaced cs = none := by rw [edge?, h]
    rcases gather_append_paren rfl h with ⟨_, hmore⟩ | hmore
    · refine .inr ⟨hnone, fun more tok rest hr => ?_⟩
      have hleft := hmore more
      unfold edge? at hr
      split at hr
      · rename_i hname
        obtain ⟨_, _, he⟩ := Option.map_eq_some_iff.mp hr
        cases he
        rw [hname] at hleft
        exact (List.suffix_cons _ _).trans hleft
      · cases hr
    · exact .inl (leaves_of_none hnone fun more => by rw [edge?, hmore]; rfl)
  · refine .inl fun more => ?_
    unfold edge?
    rw [gather_of_cons h, h]
    by_cases hc : c = '}'
    · subst hc
      simp only [List.cons_append, Option.map_map]
      rfl
    · simp [hc]

theorem edge?_of_skip {cs : List Char} (h : skip spaced cs = []) : edge? spaced cs = none := by
  rw [edge?, gather_of_skip h]

theorem wordBoundary?_of_cons {c : Char} {inside visible : List Char}
    (h : skip spaced inside = c :: visible) : wordBoundary? spaced ('{' :: inside) =
      if c.isAlpha || c = '-' then edge? spaced inside
      else some (word .boundary, '{' :: inside) := by
  rw [wordBoundary?, h]
  rfl

theorem wordBoundary?_meets (cs : List Char) : Meets spaced inClass (wordBoundary? spaced) cs := by
  rcases cs with _ | ⟨c, inside⟩
  · exact .left fun more => rfl
  by_cases hc : c = '{'
  · subst hc
    rcases hskip : skip spaced inside with _ | ⟨d, rest⟩
    · have hnone : wordBoundary? spaced ('{' :: inside) = none := by
        simp only [wordBoundary?, hskip]
      refine .taken hnone fun more tok rest hr => ?_
      rcases hvisible : skip spaced (inside ++ ')' :: more) with _ | ⟨d, visible⟩
      · simp only [List.cons_append, wordBoundary?, hvisible] at hr
        cases hr
      rw [List.cons_append, wordBoundary?_of_cons hvisible] at hr
      split at hr
      · rcases edge?_passes inside with hleft | ⟨_, hover⟩
        · rw [hleft, edge?_of_skip hskip] at hr
          cases hr
        · exact .behind (hover more tok rest hr)
      · cases hr
        exact .braces inside hskip
    · have hself := wordBoundary?_of_cons hskip
      have hparen (more : List Char) := wordBoundary?_of_cons (skip_of_cons hskip (')' :: more))
      by_cases hname : (d.isAlpha || d = '-') = true
      · simp only [hname, if_true] at hself hparen
        exact (edge?_passes inside).meets.of_eq hself hparen
      · simp only [hname] at hself hparen
        exact .left fun more => (hparen more).trans (by rw [hself]; rfl)
  · refine .left fun more => ?_
    simp [wordBoundary?, hc, beforeParen]

theorem escape?_meets [Tables] (cs : List Char) : Meets spaced inClass (escape? spaced) cs := by
  fun_cases escape? spaced cs with
  | case1 =>
    refine .taken rfl fun more tok rest hr => ?_
    cases hr
    exact .behind List.suffix_rfl
  | case2 cs => exact (hex?_passes 2 cs).meets.of_eq rfl fun more => rfl
  | case3 cs => exact (hex?_passes 4 cs).meets.of_eq rfl fun more => rfl
  | case4 cs => exact (hex?_passes 8 cs).meets.of_eq rfl fun more => rfl
  | case5 cs => exact (property?_passes false cs).meets.of_eq rfl fun more => rfl
  | case6 cs => exact (property?_passes true cs).meets.of_eq rfl fun more => rfl
  | case7 cs => exact (wordBoundary?_meets cs).of_eq rfl fun more => rfl
  | case8 c cs =>
    refine .left fun more => ?_
    unfold escape?
    split
    case h_8 =>
      rename_i he
      obtain ⟨rfl, rfl⟩ := List.cons.inj he
      simp only [Option.map_map]
      rfl
    all_goals simp_all

theorem isEscape_of_hex? {digits : Nat} {cs rest : List Char} {tok : Token}
    (h : hex? spaced digits cs = some (tok, rest)) : tok.isEscape = true := by
  unfold hex? at h
  split at h
  · split at h
    · obtain ⟨_, _, he⟩ := Option.map_eq_some_iff.mp h
      cases he
      rfl
    · cases h
  · obtain ⟨_, _, h⟩ := Option.bind_eq_some_iff.mp h
    obtain ⟨_, _, he⟩ := Option.map_eq_some_iff.mp h
    cases he
    rfl

theorem isEscape_of_property? [Tables] {negated : Bool} {cs rest : List Char} {tok : Token}
    (h : property? spaced negated cs = some (tok, rest)) : tok.isEscape = true := by
  unfold property? at h
  split at h
  · split at h
    · obtain ⟨_, _, he⟩ := Option.map_eq_some_iff.mp h
      cases he
      rfl
    · cases h
  · obtain ⟨_, _, he⟩ := Option.map_eq_some_iff.mp h
    cases he
    rfl
  · cases h

theorem isEscape_of_wordBoundary? {cs rest : List Char} {tok : Token}
    (h : wordBoundary? spaced cs = some (tok, rest)) : tok.isEscape = true := by
  unfold wordBoundary? at h
  split at h
  · split at h
    · cases h
    · split at h
      · split at h
        · obtain ⟨_, _, he⟩ := Option.map_eq_some_iff.mp h
          cases he
          rfl
        · cases h
      · cases h
        rfl
  · cases h
    rfl

theorem isEscape_of_escape? [Tables] {cs rest : List Char} {tok : Token}
    (h : escape? spaced cs = some (tok, rest)) : tok.isEscape = true := by
  unfold escape? at h
  split at h
  · cases h
  · exact isEscape_of_hex? h
  · exact isEscape_of_hex? h
  · exact isEscape_of_hex? h
  · exact isEscape_of_property? h
  · exact isEscape_of_property? h
  · exact isEscape_of_wordBoundary? h
  · obtain ⟨tok', h, he⟩ := Option.map_eq_some_iff.mp h
    cases he
    split at h
    case h_18 =>
      split at h
      · cases h
        rfl
      · cases h
    all_goals
      cases h
      rfl

end Escapes

section Groups

variable {spaced inClass : Bool}

theorem named?_eq [Tables] (cs : List Char) : named? cs =
    andThen? (upTo? false '>')
      (fun name => if isName name then some (groupOpen (some name) ⟨[], []⟩) else none) cs := by
  rw [named?, andThen?, upTo?, span_eq_gather]
  rcases gather (· != '>') false false cs with ⟨name, _ | ⟨c, rest⟩⟩
  · rfl
  · simp only [Option.bind_some]
    split <;> rfl

theorem named?_passes [Tables] (cs : List Char) : Passes named? cs :=
  ((upTo?_passes (by decide) cs).andThen _).of_eq (named?_eq cs) fun _ => named?_eq _

/-- The letters of flags, up to a colon or a parenthesis. -/
def letters? (cs : List Char) : Option (Token × List Char) :=
  match cs.span (fun c => c != ':' && c != ')') with
  | (letters, ':' :: rest) => (flagChange? letters).map fun change => (groupOpen none change, rest)
  | (letters, _ :: rest) =>
    if letters.isEmpty then none
    else (flagChange? letters).map fun change => (setFlags change, rest)
  | _ => none

theorem span_of_letters? {cs rest : List Char} {tok : Token}
    (h : letters? cs = some (tok, rest)) :
    ∃ c, (cs.span (fun c => c != ':' && c != ')')).2 = c :: rest := by
  unfold letters? at h
  split at h
  · rename_i hspan
    obtain ⟨_, _, he⟩ := Option.map_eq_some_iff.mp h
    cases he
    exact ⟨':', by rw [hspan]⟩
  · rename_i hspan
    split at h
    · cases h
    · obtain ⟨_, _, he⟩ := Option.map_eq_some_iff.mp h
      cases he
      exact ⟨_, by rw [hspan]⟩
  · cases h

/-- A parenthesis ends the letters as well as a colon does. -/
theorem letters?_passes (cs : List Char) : Passes letters? cs := by
  rcases h : gather (fun c => c != ':' && c != ')') false false cs with ⟨letters, _ | ⟨c, rest⟩⟩
  · refine .inr ⟨by rw [letters?, span_eq_gather, h], fun more tok rest hr => ?_⟩
    obtain ⟨c, hspan⟩ := span_of_letters? hr
    rw [span_eq_gather] at hspan
    rcases gather_append_paren rfl h with ⟨_, hmore⟩ | hmore
    · exact (List.suffix_cons c rest).trans (hspan ▸ hmore more)
    · rw [hmore] at hspan
      cases hspan
      exact List.suffix_rfl
  · refine .inl fun more => ?_
    rw [letters?, letters?, span_eq_gather, span_eq_gather, gather_of_cons h, h]
    by_cases hc : c = ':'
    · subst hc
      simp only [List.cons_append, Option.map_map]
      rfl
    · simp only [List.cons_append]
      split
      · rfl
      · simp only [Option.map_map]
        rfl

/-- What follows a question mark after an opening parenthesis. -/
def mark? [Tables] : List Char → Option (Token × List Char)
  | 'P' :: '<' :: cs => named? cs
  | '<' :: cs => named? cs
  | cs => letters? cs

theorem group?_of_mark [Tables] {cs rest : List Char} (h : skip spaced cs = '?' :: rest) :
    group? spaced cs = mark? rest := by
  unfold group?
  rw [h]
  fun_cases mark? rest with
  | case1 => rfl
  | case2 => rfl
  | case3 rest hlook hname =>
    split
    · rename_i he
      cases he
      exact absurd rfl (hlook _)
    · rename_i he
      cases he
      exact absurd rfl (hname _)
    · rename_i he
      cases he
      rfl
    · rename_i hno
      exact absurd rfl (hno _)

theorem mark?_passes [Tables] (cs : List Char) : Passes mark? cs := by
  fun_cases mark? cs with
  | case1 rest => exact (named?_passes rest).of_eq rfl fun more => rfl
  | case2 rest => exact (named?_passes rest).of_eq rfl fun more => rfl
  | case3 cs hlook hname =>
    refine (letters?_passes cs).of_eq (by rw [mark?] <;> assumption) fun more => ?_
    rw [mark?]
    · intro rest he
      rcases cs with _ | ⟨c, _ | ⟨d, cs⟩⟩
      · cases he
      · cases he
      · cases he
        exact hlook _ rfl
    · intro rest he
      rcases cs with _ | ⟨c, cs⟩
      · cases he
      · cases he
        exact hname _ rfl

theorem group?_meets [Tables] (cs : List Char) : Meets spaced inClass (group? spaced) cs := by
  rcases hskip : skip spaced cs with _ | ⟨c, rest⟩
  · have hself : group? spaced cs = some (groupOpen none ⟨[], []⟩, []) := by rw [group?, hskip]
    rcases skip_append_paren hskip with ⟨hparen, hmore⟩ | hmore
    · exact .hidden _ hself (by rw [group?, hparen]) (overruns_of_hidden skips_group? hmore)
    · refine .left fun more => ?_
      rw [hself, group?, hmore]
      rfl
  by_cases hc : c = '?'
  · subst hc
    exact (mark?_passes rest).meets.of_eq (group?_of_mark hskip)
      fun more => group?_of_mark (skip_of_cons hskip (')' :: more))
  · refine .left fun more => ?_
    unfold group?
    simp [skip_of_cons hskip, hskip, hc, beforeParen]

end Groups

end TreeQuery.Regex.Token
