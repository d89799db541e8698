import TreeQuery.Proofs.Regex.Suffixes

namespace TreeQuery.Regex.Token

section Gather

variable {p : Char → Bool} {spaced comment : Bool} {cs run rest : List Char}

/-- Once a run has come to its end, nothing more is looked at. -/
theorem gather_of_cons {c : Char} (h : gather p spaced comment cs = (run, c :: rest))
    (more : List Char) :
    gather p spaced comment (cs ++ more) = (run, c :: rest ++ more) := by
  fun_induction gather p spaced comment cs generalizing run with
  | case1 => cases h
  | case2 c' cs ih => exact ih h
  | case3 c' cs comment hcomment hspace ih =>
    rw [List.cons_append, gather, if_neg hcomment, if_pos hspace]
    exact ih h
  | case4 c' cs comment hcomment hspace hhash ih =>
    rw [List.cons_append, gather, if_neg hcomment, if_neg hspace, if_pos hhash]
    exact ih h
  | case5 c' cs comment hcomment hspace hhash hp run' rest' hrun ih =>
    cases h
    rw [List.cons_append, gather, if_neg hcomment, if_neg hspace, if_neg hhash, if_pos hp,
      ih hrun]
  | case6 c' cs comment hcomment hspace hhash hp =>
    cases h
    rw [List.cons_append, gather, if_neg hcomment, if_neg hspace, if_neg hhash, if_neg hp]

/-- A run that comes to the end of the text goes on with what is put there, be it inside a comment
or not. -/
theorem gather_of_nil (h : gather p spaced comment cs = (run, [])) : ∃ inside, ∀ more,
    gather p spaced comment (cs ++ more) =
      (run ++ (gather p spaced inside more).1, (gather p spaced inside more).2) := by
  fun_induction gather p spaced comment cs generalizing run with
  | case1 comment =>
    cases h
    exact ⟨comment, fun more => rfl⟩
  | case2 c cs ih => exact ih h
  | case3 c cs comment hcomment hspace ih =>
    obtain ⟨inside, hmore⟩ := ih h
    refine ⟨inside, fun more => ?_⟩
    rw [List.cons_append, gather, if_neg hcomment, if_pos hspace, hmore]
  | case4 c cs comment hcomment hspace hhash ih =>
    obtain ⟨inside, hmore⟩ := ih h
    refine ⟨inside, fun more => ?_⟩
    rw [List.cons_append, gather, if_neg hcomment, if_neg hspace, if_pos hhash, hmore]
  | case5 c cs comment hcomment hspace hhash hp run' rest' hrun ih =>
    cases h
    obtain ⟨inside, hmore⟩ := ih hrun
    refine ⟨inside, fun more => ?_⟩
    rw [List.cons_append, gather, if_neg hcomment, if_neg hspace, if_neg hhash, if_pos hp, hmore]
    rfl
  | case6 c cs comment hcomment hspace hhash hp => cases h

theorem gather_paren (hp : p ')' = false) (more : List Char) :
    gather p spaced false (')' :: more) = ([], ')' :: more) := by
  have hspace : (spaced && Text.isWhiteSpace ')') = false := Bool.and_false spaced
  have hhash : (spaced && decide (')' = '#')) = false := Bool.and_false spaced
  rw [gather, if_neg Bool.false_ne_true, hspace, hhash, hp]
  rfl

/-- A run that takes parentheses goes on behind this one. -/
theorem gather_takes_paren (hp : p ')' = true) (h : gather p spaced false cs = (run, []))
    (more : List Char) : (gather p spaced false (cs ++ ')' :: more)).2 <:+ more := by
  obtain ⟨inside, hmore⟩ := gather_of_nil h
  rw [hmore]
  have hspace : (spaced && Text.isWhiteSpace ')') = false := Bool.and_false spaced
  have hhash : (spaced && decide (')' = '#')) = false := Bool.and_false spaced
  cases inside with
  | true => exact suffix_of_gather _ _ _ more
  | false =>
    rw [gather, if_neg Bool.false_ne_true, hspace, hhash, hp]
    exact suffix_of_gather _ _ _ more

/-- The other runs end at the parenthesis, unless it is in a comment. -/
theorem gather_append_paren (hp : p ')' = false) (h : gather p spaced false cs = (run, [])) :
    (gather p spaced false (cs ++ [')']) = (run, []) ∧
        ∀ more, (gather p spaced false (cs ++ ')' :: more)).2 <:+ more) ∨
      ∀ more, gather p spaced false (cs ++ ')' :: more) = (run, ')' :: more) := by
  obtain ⟨inside, hmore⟩ := gather_of_nil h
  cases inside with
  | true =>
    refine .inl ⟨by simp [hmore, gather], fun more => ?_⟩
    rw [hmore]
    exact suffix_of_gather _ _ _ more
  | false => exact .inr fun more => by rw [hmore, gather_paren hp, List.append_nil]

/-- Where nothing is visible there is no run. -/
theorem gather_of_hidden (h : (gather (fun _ => false) spaced comment cs).2 = []) :
    gather p spaced comment cs = ([], []) := by
  induction cs generalizing comment with
  | nil => rfl
  | cons c cs ih =>
    rw [gather] at h ⊢
    split at h
    · rw [if_pos ‹_›, ih h]
    split at h
    · rw [if_neg ‹_›, if_pos ‹_›, ih h]
    split at h
    · rw [if_neg ‹_›, if_neg ‹_›, if_pos ‹_›, ih h]
    · cases h

theorem gather_of_skip (h : skip spaced cs = []) : gather p spaced false cs = ([], []) :=
  gather_of_hidden h

theorem skip_append_paren (h : skip spaced cs = []) :
    (skip spaced (cs ++ [')']) = [] ∧ ∀ more, skip spaced (cs ++ ')' :: more) <:+ more) ∨
      ∀ more, skip spaced (cs ++ ')' :: more) = ')' :: more := by
  rcases hgather : gather (fun _ => false) spaced false cs with ⟨run, left⟩
  rw [skip, hgather] at h
  subst h
  refine (gather_append_paren rfl hgather).imp ?_ ?_
  · rintro ⟨hparen, hmore⟩
    exact ⟨by rw [skip, hparen], hmore⟩
  · intro hparen more
    rw [skip, hparen]

/-- Where something is visible, what is put at the end makes no difference. -/
theorem skip_of_cons {c : Char} (h : skip spaced cs = c :: rest) (more : List Char) :
    skip spaced (cs ++ more) = c :: rest ++ more := by
  rcases hgather : gather (fun _ => false) spaced false cs with ⟨run, left⟩
  rw [skip, hgather] at h
  cases h
  rw [skip, gather_of_cons hgather]

theorem exists_passed {c : Char}
    (h : (gather (fun _ => false) spaced comment cs).2 = c :: rest) :
    ∃ blanks, cs = blanks ++ c :: rest ∧ (gather (fun _ => false) spaced comment blanks).2 = [] ∧
      ∀ more, (gather (fun _ => false) spaced comment (blanks ++ c :: more)).2 = c :: more := by
  induction cs generalizing comment with
  | nil => cases h
  | cons d cs ih =>
    by_cases hcomment : comment = true
    · rw [gather, if_pos hcomment] at h
      obtain ⟨blanks, rfl, hnil, hmore⟩ := ih h
      refine ⟨d :: blanks, rfl, ?_, fun more => ?_⟩
      · rw [gather, if_pos hcomment, hnil]
      · rw [List.cons_append, gather, if_pos hcomment, hmore]
    by_cases hspace : (spaced && Text.isWhiteSpace d) = true
    · rw [gather, if_neg hcomment, if_pos hspace] at h
      obtain ⟨blanks, rfl, hnil, hmore⟩ := ih h
      refine ⟨d :: blanks, rfl, ?_, fun more => ?_⟩
      · rw [gather, if_neg hcomment, if_pos hspace, hnil]
      · rw [List.cons_append, gather, if_neg hcomment, if_pos hspace, hmore]
    by_cases hhash : (spaced && decide (d = '#')) = true
    · rw [gather, if_neg hcomment, if_neg hspace, if_pos hhash] at h
      obtain ⟨blanks, rfl, hnil, hmore⟩ := ih h
      refine ⟨d :: blanks, rfl, ?_, fun more => ?_⟩
      · rw [gather, if_neg hcomment, if_neg hspace, if_pos hhash, hnil]
      · rw [List.cons_append, gather, if_neg hcomment, if_neg hspace, if_pos hhash, hmore]
    · have hvisible (more : List Char) :
          gather (fun _ => false) spaced comment (d :: more) = ([], d :: more) := by
        rw [gather, if_neg hcomment, if_neg hspace, if_neg hhash, if_neg Bool.false_ne_true]
      rw [hvisible] at h
      cases h
      refine ⟨[], rfl, rfl, fun more => ?_⟩
      rw [List.nil_append, hvisible]

/-- What is skipped is skipped whatever becomes visible behind it. -/
theorem exists_skipped {c : Char} (h : skip spaced cs = c :: rest) :
    ∃ blanks, cs = blanks ++ c :: rest ∧ skip spaced blanks = [] ∧
      ∀ more, skip spaced (blanks ++ c :: more) = c :: more :=
  exists_passed h

end Gather

section Bounds

variable {spaced : Bool} {cs : List Char}

/-- What a reader of some part leaves: nothing that is looked at any more, or the end of the text,
at which the parenthesis ends the part or is passed over. -/
def Halts {α : Type} (read : List Char → α × List Char) (cs : List Char) : Prop :=
  (∃ part c rest, ∀ more, read (cs ++ more) = (part, c :: rest ++ more)) ∨
    (read cs).2 = [] ∧ ∀ more, (read (cs ++ ')' :: more)).2 <:+ more ∨
      (read (cs ++ ')' :: more)).2 = ')' :: more

theorem decimal_paren (more : List Char) : decimal spaced (')' :: more) = ([], ')' :: more) := by
  have hparen : (')' :: more).dropWhile Text.isWhiteSpace = ')' :: more := rfl
  simp only [decimal, hparen, gather_paren (p := Char.isDigit) rfl]

theorem halts_decimal (spaced : Bool) (cs : List Char) : Halts (decimal spaced) cs := by
  have hparen (more : List Char) : (')' :: more).dropWhile Text.isWhiteSpace = ')' :: more := rfl
  rcases hu : cs.dropWhile Text.isWhiteSpace with _ | ⟨c, u⟩
  · refine .inr ⟨?_, fun more => .inr ?_⟩
    · simp only [decimal, hu]
      rfl
    · have hskip : (cs ++ ')' :: more).dropWhile Text.isWhiteSpace = ')' :: more := by
        rw [List.dropWhile_append, hu]
        rfl
      simp only [decimal, hskip, gather_paren (p := Char.isDigit) rfl, hparen]
  · have hskip (more : List Char) :
        (cs ++ more).dropWhile Text.isWhiteSpace = c :: u ++ more := by
      rw [List.dropWhile_append, hu]
      rfl
    rcases hdigits : gather Char.isDigit spaced false (c :: u) with ⟨digits, _ | ⟨d, rest⟩⟩
    · refine .inr ⟨by simp [decimal, hu, hdigits], fun more => ?_⟩
      rcases gather_append_paren rfl hdigits with ⟨_, hmore⟩ | hmore
      · refine .inl ?_
        simp only [decimal, hskip]
        exact (List.dropWhile_suffix _).trans (hmore more)
      · exact .inr (by simp only [decimal, hskip, hmore, hparen])
    · rcases hrest : (d :: rest).dropWhile Text.isWhiteSpace with _ | ⟨e, left⟩
      · refine .inr ⟨by simp only [decimal, hu, hdigits, hrest], fun more => .inr ?_⟩
        simp only [decimal, hskip, gather_of_cons hdigits, List.dropWhile_append, hrest]
        rfl
      · refine .inl ⟨digits, e, left, fun more => ?_⟩
        simp only [decimal, hskip, gather_of_cons hdigits, List.dropWhile_append, hrest]
        rfl

/-- The same if white space and comments may come first. -/
theorem halts_number (spaced : Bool) (cs : List Char) :
    Halts (fun cs => decimal spaced (skip spaced cs)) cs := by
  rcases hu : skip spaced cs with _ | ⟨c, u⟩
  · refine .inr ⟨by simp only [hu]; rfl, fun more => ?_⟩
    rcases skip_append_paren hu with ⟨_, hmore⟩ | hmore
    · exact .inl ((suffix_of_decimal _ _).trans (hmore more))
    · exact .inr (by simp only [hmore, decimal_paren])
  · rcases halts_decimal spaced (c :: u) with ⟨digits, d, rest, hmore⟩ | ⟨hnil, hparen⟩
    · refine .inl ⟨digits, d, rest, fun more => ?_⟩
      simp only [skip_of_cons hu, hmore]
    · refine .inr ⟨by simp only [hu, hnil], fun more => ?_⟩
      simpa only [skip_of_cons hu] using hparen more

/-- A brace is not the parenthesis. -/
theorem suffix_of_brace {rest left more : List Char} (h : '}' :: rest <:+ left)
    (hleft : left <:+ more ∨ left = ')' :: more) : rest <:+ more := by
  rcases hleft with hleft | rfl
  · exact (List.suffix_cons _ _).trans (h.trans hleft)
  · rcases List.suffix_cons_iff.mp h with he | h
    · cases he
    · exact (List.suffix_cons _ _).trans h

/-- The bounds are there, and nothing after them is looked at, or they are missing, and end behind
the parenthesis if it completes them. -/
def BoundsEnd (spaced : Bool) (cs : List Char) : Prop :=
  (∃ min max rest, ∀ more, bounds? spaced (cs ++ more) = some (min, max, rest ++ more)) ∨
    bounds? spaced cs = none ∧ ∀ more min max rest,
      bounds? spaced (cs ++ ')' :: more) = some (min, max, rest) → rest <:+ more

theorem boundsEnd_of {cs : List Char} (bounds : Option (Nat × Option Nat)) (rest : List Char)
    (h : ∀ more, bounds? spaced (cs ++ more) =
      bounds.map fun (min, max) => (min, max, rest ++ more)) : BoundsEnd spaced cs := by
  cases bounds with
  | none =>
    refine .inr ⟨by simpa using h [], fun more min max rest hmore => ?_⟩
    rw [h] at hmore
    cases hmore
  | some bounds => exact .inl ⟨bounds.1, bounds.2, rest, h⟩

theorem boundsEnd_of_brace {cs least rest : List Char}
    (h : ∀ more, decimal spaced (skip spaced (cs ++ more)) = (least, '}' :: rest ++ more)) :
    BoundsEnd spaced cs := by
  refine boundsEnd_of ((number? least).map fun n => (n, some n)) rest fun more => ?_
  unfold bounds?
  simp only [h, List.cons_append, Option.map_map]
  rfl

/-- A least and a greatest number of rounds. -/
def between? (least most : List Char) : Option (Nat × Option Nat) :=
  (number? least).bind fun m => (number? most).bind fun n =>
    if m ≤ n then some (m, some n) else none

theorem map_between? (least most rest : List Char) :
    ((number? least).bind fun m => (number? most).bind fun n =>
      if m ≤ n then some (m, some n, rest) else none) =
    (between? least most).map fun (min, max) => (min, max, rest) := by
  rw [between?]
  cases number? least with
  | none => rfl
  | some m =>
    cases number? most with
    | none => rfl
    | some n =>
      simp only [Option.bind_some]
      split <;> rfl

theorem boundsEnd_of_comma {cs least rest : List Char}
    (h : ∀ more, decimal spaced (skip spaced (cs ++ more)) = (least, ',' :: rest ++ more)) :
    BoundsEnd spaced cs := by
  rcases halts_number spaced rest with ⟨most, c, left, hmost⟩ | ⟨hnil, hparen⟩
  · rcases hskip : skip spaced rest with _ | ⟨d, next⟩
    · have hself : decimal spaced (skip spaced rest) = (most, c :: left) := by simpa using hmost []
      rw [hskip] at hself
      cases hself
    by_cases hd : d = '}'
    · subst hd
      refine boundsEnd_of ((number? least).map fun n => (n, none)) next fun more => ?_
      unfold bounds?
      simp only [h, List.cons_append, skip_of_cons hskip, Option.map_map]
      rfl
    · refine boundsEnd_of (if c = '}' then between? least most else none) left fun more => ?_
      have hnumber : decimal spaced (d :: next ++ more) = (most, c :: left ++ more) := by
        rw [← skip_of_cons hskip]
        exact hmost more
      rw [List.cons_append, List.cons_append] at hnumber
      unfold bounds?
      simp only [h, List.cons_append, skip_of_cons hskip]
      split
      · rename_i he
        cases he
        exact absurd rfl hd
      · simp only [hnumber]
        split
        · rename_i he
          cases he
          rw [if_pos rfl, map_between?]
        · rename_i hne
          rw [if_neg fun hc => hne most (left ++ more) (by rw [hc])]
          rfl
  · have hself : decimal spaced (skip spaced cs) = (least, ',' :: rest) := by simpa using h []
    refine .inr ⟨?_, fun more min max left hmore => ?_⟩
    · rw [Option.eq_none_iff_forall_ne_some]
      rintro ⟨min, max, left⟩ hbounds
      have hbrace := suffix_of_bounds?_comma hself hbounds
      rw [hnil] at hbrace
      cases List.eq_nil_of_suffix_nil hbrace
    · exact suffix_of_brace (suffix_of_bounds?_comma (h (')' :: more)) hmore) (hparen more)

theorem boundsEnd (spaced : Bool) (cs : List Char) : BoundsEnd spaced cs := by
  rcases halts_number spaced cs with ⟨least, c, rest, h⟩ | ⟨hnil, hparen⟩
  · by_cases hbrace : c = '}'
    · exact boundsEnd_of_brace (hbrace ▸ h)
    by_cases hcomma : c = ','
    · exact boundsEnd_of_comma (hcomma ▸ h)
    · refine boundsEnd_of none rest fun more => ?_
      unfold bounds?
      simp only [h, List.cons_append]
      split
      · rename_i he
        cases he
        exact absurd rfl hbrace
      · rename_i he
        cases he
        exact absurd rfl hcomma
      · rfl
  · refine .inr ⟨?_, fun more min max left hmore => ?_⟩
    · rw [Option.eq_none_iff_forall_ne_some]
      rintro ⟨min, max, left⟩ hbounds
      have hbrace := suffix_of_bounds? hbounds
      rw [hnil] at hbrace
      cases List.eq_nil_of_suffix_nil hbrace
    · exact suffix_of_brace (suffix_of_bounds? hmore) (hparen more)

end Bounds

end TreeQuery.Regex.Token
