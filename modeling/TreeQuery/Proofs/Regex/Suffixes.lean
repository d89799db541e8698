import Mathlib.Data.List.Infix
import Mathlib.Data.List.TakeDrop
import TreeQuery.Regex.Token

namespace TreeQuery.Regex.Token

variable {spaced : Bool} {cs rest : List Char} {tok : Token}

theorem suffix_of_gather (p : Char → Bool) (spaced comment : Bool) (cs : List Char) :
    (gather p spaced comment cs).2 <:+ cs := by
  fun_induction gather p spaced comment cs with
  | case1 => exact List.suffix_rfl
  | case2 | case3 | case4 =>
    rename_i ih
    exact ih.trans (List.suffix_cons _ _)
  | case5 =>
    rename_i hrun ih
    rw [hrun] at ih
    exact ih.trans (List.suffix_cons _ _)
  | case6 => exact List.suffix_rfl

theorem suffix_of_skip (spaced : Bool) (cs : List Char) : skip spaced cs <:+ cs :=
  suffix_of_gather _ _ _ _

/-- What is behind a visible character. -/
theorem suffix_of_skip_cons {c : Char} (h : skip spaced cs = c :: rest) : rest <:+ cs :=
  (List.suffix_cons c rest).trans (h ▸ suffix_of_skip spaced cs)

theorem suffix_of_gather_cons {p : Char → Bool} {run : List Char} {c : Char}
    (h : gather p spaced false cs = (run, c :: rest)) : rest <:+ cs := by
  have hleft := suffix_of_gather p spaced false cs
  rw [h] at hleft
  exact (List.suffix_cons c rest).trans hleft

theorem span_eq_gather (p : Char → Bool) (cs : List Char) :
    cs.span p = gather p false false cs := by
  induction cs with
  | nil => rfl
  | cons c cs ih =>
    rw [gather, if_neg Bool.false_ne_true, Bool.false_and, Bool.false_and,
      if_neg Bool.false_ne_true, if_neg Bool.false_ne_true, ← ih]
    simp only [List.span_eq_takeWhile_dropWhile, List.takeWhile_cons, List.dropWhile_cons]
    split <;> rfl

theorem suffix_of_span_cons {p : Char → Bool} {run : List Char} {c : Char}
    (h : cs.span p = (run, c :: rest)) : rest <:+ cs :=
  suffix_of_gather_cons ((span_eq_gather p cs).symm.trans h)

theorem suffix_of_hexDigits? {n : Nat} {digits : List Char}
    (h : hexDigits? spaced n cs = some (digits, rest)) : rest <:+ cs := by
  induction n generalizing cs digits with
  | zero =>
    cases h
    exact List.suffix_rfl
  | succ n ih =>
    rw [hexDigits?] at h
    split at h
    · rename_i hskip
      split at h
      · obtain ⟨⟨digits', rest'⟩, hread, he⟩ := Option.map_eq_some_iff.mp h
        cases he
        exact (ih hread).trans (suffix_of_skip_cons hskip)
      · cases h
    · cases h

/-- A reader to which nothing but what is visible matters. -/
def Skips {α : Type} (spaced : Bool) (read : List Char → Option (α × List Char)) : Prop :=
  ∀ cs x rest, read cs = some (x, rest) → rest <:+ skip spaced cs

theorem Skips.suffix {α : Type} {read : List Char → Option (α × List Char)} {x : α}
    (hread : Skips spaced read) (h : read cs = some (x, rest)) : rest <:+ cs :=
  (hread _ _ _ h).trans (suffix_of_skip spaced cs)

theorem skips_hexDigits? (n : Nat) : Skips spaced (hexDigits? spaced (n + 1)) := by
  intro cs digits rest h
  rw [hexDigits?] at h
  split at h
  · rename_i hskip
    split at h
    · obtain ⟨⟨digits', rest'⟩, hread, he⟩ := Option.map_eq_some_iff.mp h
      cases he
      rw [hskip]
      exact (suffix_of_hexDigits? hread).trans (List.suffix_cons _ _)
    · cases h
  · cases h

theorem skips_hex? (n : Nat) : Skips spaced (hex? spaced n) := by
  intro cs tok rest h
  unfold hex? at h
  split at h
  · rename_i inside hskip
    rw [hskip]
    split at h
    · rename_i hgather
      obtain ⟨_, _, he⟩ := Option.map_eq_some_iff.mp h
      cases he
      exact (suffix_of_gather_cons hgather).trans (List.suffix_cons _ _)
    · cases h
  · obtain ⟨⟨digits, left⟩, hread, h⟩ := Option.bind_eq_some_iff.mp h
    obtain ⟨_, _, he⟩ := Option.map_eq_some_iff.mp h
    cases he
    exact suffix_of_hexDigits? hread

theorem suffix_of_wordBoundary? (h : wordBoundary? spaced cs = some (tok, rest)) :
    rest <:+ cs := by
  unfold wordBoundary? at h
  split at h
  · rename_i inside
    split at h
    · cases h
    · split at h
      · split at h
        · rename_i hgather
          obtain ⟨_, _, he⟩ := Option.map_eq_some_iff.mp h
          cases he
          exact (suffix_of_gather_cons hgather).trans (List.suffix_cons '{' inside)
        · cases h
      · cases h
        exact List.suffix_rfl
  · cases h
    exact List.suffix_rfl

theorem suffix_of_decimal (spaced : Bool) (cs : List Char) : (decimal spaced cs).2 <:+ cs :=
  (List.dropWhile_suffix _).trans
    ((suffix_of_gather _ _ _ _).trans (List.dropWhile_suffix _))

theorem suffix_of_decimal_cons {digits : List Char} {c : Char}
    (h : decimal spaced cs = (digits, c :: rest)) : rest <:+ cs := by
  have hleft := suffix_of_decimal spaced cs
  rw [h] at hleft
  exact (List.suffix_cons c rest).trans hleft

theorem decimal_brace (cs : List Char) : decimal spaced ('}' :: cs) = ([], '}' :: cs) := by
  have hbrace : ('}' :: cs).dropWhile Text.isWhiteSpace = '}' :: cs := rfl
  have hgather : gather Char.isDigit spaced false ('}' :: cs) = ([], '}' :: cs) := by
    cases spaced <;> rfl
  simp only [decimal, hbrace, hgather]

section Bounds

variable {min : Nat} {max : Option Nat}

/-- After a comma the brace is the one behind the second number. -/
theorem suffix_of_bounds?_comma {least behind : List Char}
    (hcomma : decimal spaced (skip spaced cs) = (least, ',' :: behind))
    (h : bounds? spaced cs = some (min, max, rest)) :
    '}' :: rest <:+ (decimal spaced (skip spaced behind)).2 := by
  unfold bounds? at h
  simp only [hcomma] at h
  split at h
  · rename_i hskip
    obtain ⟨_, _, he⟩ := Option.map_eq_some_iff.mp h
    cases he
    rw [hskip, decimal_brace]
  · split at h
    · rename_i hmost
      obtain ⟨_, _, h⟩ := Option.bind_eq_some_iff.mp h
      obtain ⟨_, _, h⟩ := Option.bind_eq_some_iff.mp h
      split at h
      · cases h
        rw [hmost]
      · cases h
    · cases h

/-- The brace that ends the bounds is behind the first number. -/
theorem suffix_of_bounds? (h : bounds? spaced cs = some (min, max, rest)) :
    '}' :: rest <:+ (decimal spaced (skip spaced cs)).2 := by
  rcases hnumber : decimal spaced (skip spaced cs) with ⟨least, left⟩
  have hbounds := h
  unfold bounds? at h
  rw [hnumber] at h
  simp only at h ⊢
  split at h
  · obtain ⟨_, _, he⟩ := Option.map_eq_some_iff.mp h
    cases he
    exact List.suffix_rfl
  · rename_i behind
    exact (((suffix_of_bounds?_comma hnumber hbounds).trans (suffix_of_decimal _ _)).trans
      (suffix_of_skip _ _)).trans (List.suffix_cons ',' behind)
  · cases h

end Bounds

/-- Whether a class is negated, after its opening bracket. -/
def classStart (spaced : Bool) (cs : List Char) : Bool × List Char :=
  match skip spaced cs with
  | '^' :: cs => (true, skip spaced cs)
  | cs => (false, cs)

theorem classOpen?_eq (cs : List Char) : classOpen? spaced cs =
    match gather (· = '-') spaced false (classStart spaced cs).2 with
    | ([], ']' :: rest) => some (classOpen (classStart spaced cs).1 [']'], rest)
    | (_, []) => none
    | (hyphens, rest) => some (classOpen (classStart spaced cs).1 hyphens, rest) := by
  rfl

theorem suffix_of_classStart (spaced : Bool) (cs : List Char) :
    (classStart spaced cs).2 <:+ skip spaced cs := by
  unfold classStart
  split
  · rename_i hskip
    rw [hskip]
    exact (suffix_of_skip _ _).trans (List.suffix_cons _ _)
  · exact List.suffix_rfl

/-- A class begins behind its sign and the hyphens. -/
theorem suffix_of_classOpen? (h : classOpen? spaced cs = some (tok, rest)) :
    rest <:+ (gather (· = '-') spaced false (classStart spaced cs).2).2 := by
  rw [classOpen?_eq] at h
  split at h
  · rename_i hgather
    cases h
    rw [hgather]
    exact List.suffix_cons _ _
  · cases h
  · rename_i hgather
    cases h
    rw [hgather]

theorem skips_classOpen? : Skips spaced (classOpen? spaced) :=
  fun _ _ _ h =>
    ((suffix_of_classOpen? h).trans (suffix_of_gather _ _ _ _)).trans (suffix_of_classStart _ _)

theorem suffix_of_posix? (h : posix? cs = some (tok, rest)) : rest <:+ cs := by
  unfold posix? at h
  split at h
  rename_i negated name hstart
  have hname : name <:+ cs := by
    split at hstart
    · cases hstart
      exact List.suffix_cons _ _
    · cases hstart
      exact List.suffix_rfl
  split at h
  · rename_i hspan
    obtain ⟨_, _, he⟩ := Option.map_eq_some_iff.mp h
    cases he
    exact ((List.suffix_cons _ _).trans (suffix_of_span_cons hspan)).trans hname
  · cases h

theorem suffix_of_dropLazy (cs : List Char) : dropLazy cs <:+ cs := by
  unfold dropLazy
  split
  · exact List.suffix_cons _ _
  · exact List.suffix_rfl

variable [Unicode.Tables]

theorem skips_property? (negated : Bool) : Skips spaced (property? spaced negated) := by
  intro cs tok rest h
  unfold property? at h
  split at h
  · rename_i hskip
    rw [hskip]
    split at h
    · rename_i hgather
      obtain ⟨_, _, he⟩ := Option.map_eq_some_iff.mp h
      cases he
      exact (suffix_of_gather_cons hgather).trans (List.suffix_cons _ _)
    · cases h
  · rename_i hskip
    rw [hskip]
    obtain ⟨_, _, he⟩ := Option.map_eq_some_iff.mp h
    cases he
    exact List.suffix_cons _ _
  · cases h

theorem suffix_of_escape? (h : escape? spaced cs = some (tok, rest)) : rest <:+ cs := by
  unfold escape? at h
  split at h
  case h_1 => cases h
  case h_2 | h_3 | h_4 => exact ((skips_hex? _).suffix h).trans (List.suffix_cons _ _)
  case h_5 | h_6 => exact ((skips_property? _).suffix h).trans (List.suffix_cons _ _)
  case h_7 => exact (suffix_of_wordBoundary? h).trans (List.suffix_cons _ _)
  case h_8 =>
    obtain ⟨_, _, he⟩ := Option.map_eq_some_iff.mp h
    cases he
    exact List.suffix_cons _ _

theorem suffix_of_named? (h : named? cs = some (tok, rest)) : rest <:+ cs := by
  unfold named? at h
  split at h
  · rename_i hspan
    split at h
    · cases h
      exact suffix_of_span_cons hspan
    · cases h
  · cases h

theorem skips_group? : Skips spaced (group? spaced) := by
  intro cs tok rest h
  unfold group? at h
  split at h
  · rename_i hskip
    rw [hskip]
    exact (suffix_of_named? h).trans (List.drop_suffix 3 ('?' :: 'P' :: '<' :: _))
  · rename_i hskip
    rw [hskip]
    exact (suffix_of_named? h).trans (List.drop_suffix 2 ('?' :: '<' :: _))
  · rename_i hskip
    rw [hskip]
    split at h
    · rename_i hspan
      obtain ⟨_, _, he⟩ := Option.map_eq_some_iff.mp h
      cases he
      exact (suffix_of_span_cons hspan).trans (List.suffix_cons _ _)
    · rename_i hspan
      split at h
      · cases h
      · obtain ⟨_, _, he⟩ := Option.map_eq_some_iff.mp h
        cases he
        exact (suffix_of_span_cons hspan).trans (List.suffix_cons _ _)
    · cases h
  · cases h
    exact List.suffix_rfl

theorem suffix_of_classPrimitive? (h : classPrimitive? spaced cs = some (tok, rest)) :
    rest <:+ cs := by
  unfold classPrimitive? at h
  split at h
  · cases h
  · exact (suffix_of_escape? h).trans (List.suffix_cons _ _)
  · cases h
    exact List.suffix_cons _ _

/-- What follows the first end of a range, after the hyphen. -/
def rangeTo? (spaced : Bool) (first : Token) (cs : List Char) : Option (Token × List Char) :=
  (classPrimitive? spaced cs).bind fun (last, rest) =>
    match first, last with
    | literal a, literal b => if a ≤ b then some (classRange a b, rest) else none
    | _, _ => none

/-- What follows the first member: the rest of a range, unless the hyphen stands for itself. -/
def afterFirst? (spaced : Bool) (first : Token) (cs : List Char) : Option (Token × List Char) :=
  match skip spaced cs with
  | '-' :: after =>
    match skip spaced after with
    | [] => none
    | next =>
      if next.head? = some ']' || next.head? = some '-' then some (first, '-' :: after)
      else rangeTo? spaced first next
  | rest => some (first, rest)

theorem member?_eq (cs : List Char) : member? spaced cs =
    (classPrimitive? spaced cs).bind fun (first, rest) => afterFirst? spaced first rest :=
  rfl

theorem suffix_of_rangeTo? {first : Token} (h : rangeTo? spaced first cs = some (tok, rest)) :
    rest <:+ cs := by
  obtain ⟨⟨last, left⟩, hlast, h⟩ := Option.bind_eq_some_iff.mp h
  simp only at h
  split at h
  · split at h
    · cases h
      exact suffix_of_classPrimitive? hlast
    · cases h
  · cases h

theorem skips_afterFirst? (first : Token) : Skips spaced (afterFirst? spaced first) := by
  intro cs tok rest h
  unfold afterFirst? at h
  split at h
  · rename_i after hskip
    rw [hskip]
    split at h
    · cases h
    · split at h
      · cases h
        exact List.suffix_rfl
      · exact ((suffix_of_rangeTo? h).trans (suffix_of_skip _ _)).trans (List.suffix_cons _ _)
  · cases h
    exact List.suffix_rfl

theorem suffix_of_member? {c : Char} (h : member? spaced (c :: cs) = some (tok, rest)) :
    rest <:+ cs := by
  rw [member?_eq] at h
  obtain ⟨⟨first, left⟩, hfirst, h⟩ := Option.bind_eq_some_iff.mp h
  have hleft : left <:+ cs := by
    by_cases hc : c = '\\'
    · subst hc
      exact suffix_of_escape? hfirst
    · rw [classPrimitive?.eq_3 _ _ _ hc] at hfirst
      cases hfirst
      exact List.suffix_rfl
  exact ((skips_afterFirst? first).suffix h).trans hleft

theorem suffix_of_outside? {c : Char} (h : outside? spaced (c :: cs) = some (tok, rest)) :
    rest <:+ cs := by
  unfold outside? at h
  split at h
  case h_1 he => cases he
  case h_2 he =>
    cases he
    exact skips_group?.suffix h
  case h_5 he =>
    cases he
    exact skips_classOpen?.suffix h
  case h_6 he | h_7 he | h_8 he =>
    cases he
    cases h
    exact suffix_of_dropLazy _
  case h_9 he =>
    cases he
    obtain ⟨⟨min, max, left⟩, hbounds, he⟩ := Option.map_eq_some_iff.mp h
    cases he
    have hbrace := (suffix_of_bounds? hbounds).trans
      ((suffix_of_decimal _ _).trans (suffix_of_skip _ _))
    exact (((suffix_of_dropLazy _).trans (suffix_of_skip _ _)).trans (List.suffix_cons '}' _)).trans
      hbrace
  case h_10 he =>
    cases he
    exact suffix_of_escape? h
  all_goals
    rename_i he
    cases he
    cases h
    exact List.suffix_rfl

theorem suffix_of_inside? {c : Char} (h : inside? spaced (c :: cs) = some (tok, rest)) :
    rest <:+ cs := by
  unfold inside? at h
  split at h
  case h_1 he => cases he
  case h_2 he =>
    cases he
    rename_i cs
    cases hname : posix? cs with
    | some named =>
      rw [hname] at h
      cases h
      exact (suffix_of_posix? hname).trans (List.suffix_cons _ _)
    | none =>
      rw [hname] at h
      exact skips_classOpen?.suffix h
  case h_3 he =>
    cases he
    exact skips_classOpen?.suffix h
  case h_4 he =>
    cases he
    cases h
    exact List.suffix_rfl
  case h_5 he | h_6 he | h_7 he =>
    cases he
    cases h
    exact List.suffix_cons _ _
  case h_8 => exact suffix_of_member? h

end TreeQuery.Regex.Token
