import TreeQuery.Proofs.Regex.Reading

namespace TreeQuery

namespace Regex

open Token

/-- The same within one more group, outside all others. -/
def Token.Mode.within (m : Mode) : Mode :=
  { m with outer := m.outer ++ [false] }

def Reading.within (s : Reading) (g : Group) : Reading :=
  { s with outer := s.outer ++ [g] }

theorem Reading.within_outer_ne (s : Reading) (g : Group) : (s.within g).outer ≠ [] :=
  List.append_ne_nil_of_right_ne_nil _ (List.cons_ne_nil _ _)

theorem Coupled.within {m : Mode} {s : Reading} (h : Coupled m s) (g : Group) :
    Coupled m.within (s.within g) :=
  ⟨h.classes, by simp [Mode.within, Reading.within, h.outer]⟩

section Within

variable {m : Mode} {s : Reading} {g : Group} {tok : Token}

theorem mode_next?_of_isEscape (h : tok.isEscape = true) : m.next? tok = some m := by
  cases tok <;> first | rfl | cases h

theorem mode_next?_within (h : tok = groupClose → m.outer ≠ []) :
    m.within.next? tok = (m.next? tok).map Mode.within := by
  cases tok with
  | groupClose =>
    obtain ⟨spaced, outer, he⟩ := List.exists_cons_of_ne_nil (h rfl)
    simp [Mode.next?, Mode.within, he]
  | _ => rfl

/-- The group around a text is not closed by what closes a group in it. -/
theorem mode_next?_within_of_some {m' : Mode} (h : m.next? tok = some m') :
    m.within.next? tok = some m'.within := by
  rw [mode_next?_within, h]
  · rfl
  · rintro rfl he
    simp [Mode.next?, he] at h

variable [Unicode.Tables]

theorem next?_within (h : tok = groupClose → s.classes = [] → s.outer ≠ []) :
    (s.within g).next? tok = (s.next? tok).map (·.within g) := by
  obtain ⟨group, outer, classes, names⟩ := s
  cases classes with
  | nil =>
    cases tok with
    | groupClose =>
      obtain ⟨above, outer', rfl⟩ := List.exists_cons_of_ne_nil (h rfl rfl)
      rfl
    | dot | shorthand =>
      simp only [Reading.next?, Reading.within, Reading.outside?, Reading.flags, Option.map_map]
      rfl
    | groupOpen name change =>
      by_cases hname : name.any (· ∈ names) = true
      · have hself : (Reading.mk group outer [] names).next? (groupOpen name change) = none :=
          if_pos hname
        rw [hself]
        exact if_pos hname
      · have hself : (Reading.mk group outer [] names).next? (groupOpen name change) = some _ :=
          if_neg hname
        rw [hself]
        exact if_neg hname
    | property =>
      by_cases hunicode : group.flags.unicode = true <;>
        simp [Reading.next?, Reading.within, Reading.outside?, Reading.flags, Reading.push,
          hunicode]
    | repetition =>
      simp only [Reading.next?, Reading.within, Reading.outside?]
      split <;> rfl
    | _ => rfl
  | cons k ks =>
    cases tok with
    | property =>
      by_cases hunicode : group.flags.unicode = true <;>
        simp [Reading.next?, Reading.within, Reading.inside?, Reading.flags, Reading.member,
          hunicode]
    | classClose =>
      simp only [Reading.next?, Reading.within, Reading.inside?, Reading.flags]
      split
      · rfl
      · simp only [Option.map_map]
        rfl
    | _ => rfl

theorem next?_within_of_some {s' : Reading} (h : s.next? tok = some s') :
    (s.within g).next? tok = some (s'.within g) := by
  rw [next?_within, h]
  · rfl
  · rintro rfl hclasses houter
    simp [Reading.next?, Reading.outside?, hclasses, houter] at h

end Within

variable [Unicode.Tables]

section Heads

variable {m m' : Mode} {s s' : Reading} {tok : Token} {c : Char} {cs rest : List Char} {r : Regex}

theorem head?_meets (m : Mode) (c : Char) (cs : List Char) :
    Meets m.spaced (decide (m.classes ≠ 0)) (head? m) (c :: cs) := by
  by_cases hclasses : m.classes = 0
  · have hread : head? m = outside? m.spaced := funext fun cs => if_pos hclasses
    rw [hread]
    exact outside?_meets c cs
  · have hread : head? m = inside? m.spaced := funext fun cs => if_neg hclasses
    rw [hread, decide_eq_true hclasses]
    exact inside?_meets c cs

theorem suffix_of_head? (h : head? m (c :: cs) = some (tok, rest)) : rest <:+ cs := by
  unfold head? at h
  split at h
  · exact suffix_of_outside? h
  · exact suffix_of_inside? h

/-- The parenthesis does not change a token before it; it is left over, or hidden. -/
theorem head?_paren_of_some (h : head? m (c :: cs) = some (tok, rest)) :
    (∀ more, head? m (c :: cs ++ ')' :: more) = some (tok, rest ++ ')' :: more)) ∨
      rest = [] ∧ head? m (c :: cs ++ [')']) = some (tok, []) := by
  cases head?_meets m c cs with
  | left hleft => exact .inl fun more => by rw [hleft, h]; rfl
  | hidden tok' hself hparen =>
    rw [hself] at h
    cases h
    exact .inr ⟨rfl, hparen⟩
  | taken hnone =>
    rw [hnone] at h
    cases h

theorem head?_paren (hclasses : m.classes = 0) (more : List Char) :
    head? m (')' :: more) = some (groupClose, more) :=
  if_pos hclasses

/-- Nothing but a parenthesis outside classes closes a group. -/
theorem groupClose_of_head? (hcoupled : Coupled m s)
    (hhead : head? m (c :: cs) = some (groupClose, rest)) (hs : s.next? groupClose = some s') :
    m.classes = 0 ∧ c = ')' ∧ rest = cs := by
  by_cases hclasses : m.classes = 0
  · refine ⟨hclasses, ?_⟩
    rw [head?, if_pos hclasses] at hhead
    unfold outside? at hhead
    split at hhead
    case h_2 => exact absurd (isGroup_of_group? hhead) Bool.false_ne_true
    case h_3 he =>
      cases he
      cases hhead
      exact ⟨rfl, rfl⟩
    case h_5 =>
      obtain ⟨_, _, he⟩ := eq_classOpen_of_classOpen? hhead
      cases he
    case h_9 =>
      obtain ⟨_, _, he⟩ := Option.map_eq_some_iff.mp hhead
      cases he
    case h_10 => exact absurd (isEscape_of_escape? hhead) Bool.false_ne_true
    all_goals cases hhead
  · obtain ⟨k, ks, hk⟩ := List.exists_cons_of_ne_nil (hcoupled.classes_eq_zero.not.mp hclasses)
    simp [Reading.next?, hk, Reading.inside?] at hs

/-- No class is left open at the end of an expression, and no group. -/
theorem not_reads_nil_of_outer (h : s.outer ≠ []) : ¬ Reads m s [] r := fun hr =>
  h (finish?_eq_some.mp ((reads_iff_of_skip rfl).mp hr)).1

theorem not_reads_nil_of_classes (h : Coupled m s) (hclasses : m.classes ≠ 0) :
    ¬ Reads m s [] r := fun hr =>
  hclasses (h.classes_eq_zero.mpr (finish?_eq_some.mp ((reads_iff_of_skip rfl).mp hr)).2.1)

/-- A parenthesis closes no group where none is open. -/
theorem not_reads_paren (hclasses : m.classes = 0) (houter : m.outer = []) {more : List Char}
    (hparen : skip m.spaced cs = ')' :: more) : ¬ Reads m s cs r := by
  intro hr
  obtain ⟨m', s', hm, _, _⟩ := hr.next (hparen ▸ head?_paren hclasses more)
  simp [Mode.next?, houter] at hm

/-- Braces after a word boundary that hold nothing. -/
theorem not_reads_braces {blanks : List Char} (h : Coupled m s)
    (hword : s.next? (word .boundary) = some s') (hskip : skip m.spaced blanks = []) :
    ¬ Reads m s' ('{' :: blanks) r := by
  by_cases hclasses : m.classes = 0
  · have hbrace : skip m.spaced ('{' :: blanks) = '{' :: blanks := by cases m.spaced <;> rfl
    have hhead : head? m ('{' :: blanks) = none := by
      rw [head?, if_pos hclasses]
      change (bounds? m.spaced blanks).map _ = none
      rw [bounds?, hskip]
      rfl
    intro hr
    cases hr with
    | done hnil =>
      rw [hbrace] at hnil
      cases hnil
    | step hsome =>
      rw [hbrace, hhead] at hsome
      cases hsome
  · obtain ⟨k, ks, hk⟩ := List.exists_cons_of_ne_nil (h.classes_eq_zero.not.mp hclasses)
    simp [Reading.next?, hk, Reading.inside?] at hword

/-- A hyphen in a class that nothing closes. -/
theorem not_reads_hyphen {blanks : List Char} (h : Coupled m s) (hclasses : m.classes ≠ 0)
    (hskip : skip m.spaced blanks = []) : ¬ Reads m s ('-' :: blanks) r := by
  have hhyphen : skip m.spaced ('-' :: blanks) = '-' :: blanks := by cases m.spaced <;> rfl
  have hsign : blanks.head? ≠ some '-' := by
    rintro he
    obtain ⟨rest, rfl⟩ := List.head?_eq_some_iff.mp he
    have hvisible : skip m.spaced ('-' :: rest) = '-' :: rest := by cases m.spaced <;> rfl
    rw [hvisible] at hskip
    cases hskip
  have hhead : head? m ('-' :: blanks) = some (literal '-', []) := by
    rw [head?, if_neg hclasses, inside?_eq_member? (by decide) (by decide) (fun h => hsign h.1)]
    change afterFirst? m.spaced (literal '-') blanks = _
    rw [afterFirst?_of_ne (by simp [hskip]), hskip]
  intro hr
  obtain ⟨m', s', hm, hs, hr⟩ := hr.next (hhyphen.symm ▸ hhead)
  have hnext := h.next? hm hs
  cases hm
  exact not_reads_nil_of_classes hnext hclasses hr

end Heads

section Grouped

variable {m : Mode} {s : Reading} {g : Group} {cs : List Char} {r r' : Regex}

/-- Where only the parenthesis is left, it closes the group around what was read. -/
theorem reads_within_paren (h : Coupled m s) (hparen : skip m.spaced cs = [')'])
    (hfinish : s.finish? = some r) :
    Reads m.within (s.within g) cs (g.push r).toRegex := by
  obtain ⟨houter, hclasses, rfl⟩ := finish?_eq_some.mp hfinish
  obtain ⟨group, outer, classes, names⟩ := s
  obtain rfl : outer = [] := houter
  obtain rfl : classes = [] := hclasses
  have hmode : m.within.next? groupClose = some { m with spaced := false, outer := [] } := by
    simp [Mode.within, Mode.next?, h.outer_eq_nil.mpr rfl]
  have hhead : head? m.within (skip m.within.spaced cs) = some (groupClose, []) :=
    (congrArg (head? m.within) hparen).trans (head?_paren (h.classes_eq_zero.mpr rfl) [])
  have hlt : ([] : List Char).length < cs.length := by
    cases cs with
    | nil => cases hparen
    | cons c cs => exact Nat.succ_pos _
  exact .step hhead hlt hmode rfl (.done rfl rfl)

/-- With the parenthesis after it, an expression is one in the group, or still one by itself. -/
theorem Reads.append_paren (h : Reads m s cs r) (hcoupled : Coupled m s) :
    Reads m.within (s.within g) (cs ++ [')']) (g.push r).toRegex ∨ Reads m s (cs ++ [')']) r := by
  induction h with
  | @done m s cs r hskip hfinish =>
    rcases skip_append_paren hskip with ⟨hparen, _⟩ | hparen
    · exact .inr (.done hparen hfinish)
    · exact .inl (reads_within_paren hcoupled (hparen []) hfinish)
  | @step m s cs tok rest m' s' r hhead hlt hm hs hrest ih =>
    rcases hvisible : skip m.spaced cs with _ | ⟨c, visible⟩
    · rw [hvisible, head?_nil] at hhead
      cases hhead
    rw [hvisible] at hhead
    have hskip : skip m.spaced (cs ++ [')']) = c :: visible ++ [')'] := skip_of_cons hvisible _
    rcases head?_paren_of_some hhead with hparen | ⟨rfl, hparen⟩
    · have hparen := hskip.symm ▸ hparen []
      have hlt' : (rest ++ [')']).length < (cs ++ [')']).length := by simpa using hlt
      rcases ih (hcoupled.next? hm hs) with hr | hr
      · exact .inl (.step hparen hlt' (mode_next?_within_of_some hm) (next?_within_of_some hs) hr)
      · exact .inr (.step hparen hlt' hm hs hr)
    · rw [← hskip] at hparen
      exact .inr (.step hparen (by simp) hm hs hrest)

/-- If the parenthesis spoils an expression, so it does whatever comes after it. -/
theorem Reads.not_reads_paren (h : Reads m s cs r) (hcoupled : Coupled m s)
    (hspoilt : ∀ r', ¬ Reads m s (cs ++ [')']) r') (more : List Char) :
    ¬ Reads m s (cs ++ ')' :: more) r' := by
  induction h generalizing r' with
  | @done m s cs r hskip hfinish =>
    rcases skip_append_paren hskip with ⟨hparen, _⟩ | hparen
    · exact absurd (.done hparen hfinish) (hspoilt r)
    · obtain ⟨houter, hclasses, _⟩ := finish?_eq_some.mp hfinish
      exact Regex.not_reads_paren (hcoupled.classes_eq_zero.mpr hclasses)
        (hcoupled.outer_eq_nil.mpr houter) (hparen more)
  | @step m s cs tok rest m' s' r hhead hlt hm hs hrest ih =>
    rcases hvisible : skip m.spaced cs with _ | ⟨c, visible⟩
    · rw [hvisible, head?_nil] at hhead
      cases hhead
    rw [hvisible] at hhead
    have hskip (more : List Char) : skip m.spaced (cs ++ more) = c :: visible ++ more :=
      skip_of_cons hvisible more
    rcases head?_paren_of_some hhead with hparen | ⟨rfl, hparen⟩
    · intro hr
      obtain ⟨m'', s'', hm', hs', hr⟩ := hr.next ((hskip _).symm ▸ hparen more)
      cases hm.symm.trans hm'
      cases hs.symm.trans hs'
      refine ih (hcoupled.next? hm hs) (fun r' hr' => hspoilt r' ?_) hr
      exact .step ((hskip _).symm ▸ hparen []) (by simpa using hlt) hm hs hr'
    · exact absurd (.step ((hskip _).symm ▸ hparen) (by simp) hm hs hrest) (hspoilt r)

/-- A token before the parenthesis that closes the group is read without it as well. -/
theorem head?_of_closed {m' : Mode} {s' : Reading} {tok : Token} {c : Char}
    {text body more : List Char} (hcoupled : Coupled m s)
    (hhead : head? m (c :: text ++ ')' :: more) = some (tok, body ++ ')' :: more))
    (hm : m.next? tok = some m') (hs : s.next? tok = some s') (hbody : Reads m' s' body r) :
    Leaves (head? m) (c :: text) := by
  have hover (h : body ++ ')' :: more <:+ more) : False := by
    have hlength := h.length_le
    simp at hlength
    omega
  cases head?_meets m c text with
  | left hleft => exact hleft
  | hidden _ _ _ h => exact (hover (h more tok _ hhead)).elim
  | taken hnone h =>
    generalize hrest : body ++ ')' :: more = rest at hhead
    cases h more tok rest hhead with
    | behind h => exact (hover (hrest ▸ h)).elim
    | member negated literals =>
      obtain rfl : body = [] := List.append_left_eq_self.mp hrest
      have hnext := hcoupled.next? hm hs
      cases hm
      exact absurd hbody (not_reads_nil_of_classes hnext (Nat.succ_ne_zero _))
    | braces blanks hskip =>
      obtain rfl : body = '{' :: blanks := List.append_cancel_right hrest
      cases hm
      exact absurd hbody (not_reads_braces hcoupled hs hskip)
    | hyphen _ blanks hclass htok hskip =>
      obtain rfl : body = '-' :: blanks := List.append_cancel_right hrest
      have hnext := hcoupled.next? hm hs
      rw [mode_next?_of_isEscape htok] at hm
      cases hm
      exact absurd hbody (not_reads_hyphen hnext (of_decide_eq_true hclass) hskip)

/-- In an expression in the group, some parenthesis closes the group, around a text that is an
expression by itself, which the parenthesis spoils. -/
theorem Reads.exists_closed (h : Reads m.within (s.within g) cs r') (hcoupled : Coupled m s) :
    ∃ body rest r, cs = body ++ ')' :: rest ∧ Reads m s body r ∧
      ∀ r, ¬ Reads m s (body ++ [')']) r := by
  generalize hmode : m.within = mode at h
  generalize hreading : s.within g = reading at h
  induction h generalizing m s with
  | done _ hfinish =>
    subst hreading
    exact absurd (finish?_eq_some.mp hfinish).1 (s.within_outer_ne g)
  | @step mode reading cs tok rest mode' reading' r' hhead hlt hm hs _ ih =>
    subst hmode hreading
    change head? m (skip m.spaced cs) = _ at hhead
    rcases hvisible : skip m.spaced cs with _ | ⟨c, visible⟩
    · rw [hvisible, head?_nil] at hhead
      cases hhead
    rw [hvisible] at hhead
    obtain ⟨blanks, rfl, hblanks, hskip⟩ := exists_skipped hvisible
    by_cases hunopened : tok = groupClose ∧ m.outer = []
    · obtain ⟨rfl, houter⟩ := hunopened
      obtain ⟨hclasses, rfl, rfl⟩ := groupClose_of_head? (hcoupled.within g) hhead hs
      have hfinish : s.finish? = some s.group.toRegex := finish?_eq_some.mpr
        ⟨hcoupled.outer_eq_nil.mp houter, hcoupled.classes_eq_zero.mp hclasses, rfl⟩
      exact ⟨blanks, rest, _, rfl, .done hblanks hfinish,
        fun r => Regex.not_reads_paren hclasses houter (hskip [])⟩
    have hopened : tok = groupClose → m.outer ≠ [] := fun he houter => hunopened ⟨he, houter⟩
    rw [mode_next?_within hopened] at hm
    rw [next?_within fun he _ => hcoupled.outer_eq_nil.not.mp (hopened he)] at hs
    obtain ⟨m', hm', rfl⟩ := Option.map_eq_some_iff.mp hm
    obtain ⟨s', hs', rfl⟩ := Option.map_eq_some_iff.mp hs
    obtain ⟨body, more, r, rfl, hbody, hspoilt⟩ := ih (hcoupled.next? hm' hs') rfl rfl
    obtain ⟨before, rfl⟩ := suffix_of_head? hhead
    rw [← List.append_assoc] at hhead
    have hleaves : Leaves (head? m) (c :: (before ++ body)) :=
      head?_of_closed hcoupled hhead hm' hs' hbody
    have hself : head? m (c :: (before ++ body)) = some (tok, body) := hleaves.of_some hhead
    refine ⟨blanks ++ c :: (before ++ body), more, r, by simp, ?_, fun r' hr' => ?_⟩
    · exact .step ((hskip _).symm ▸ hself) (by simp; omega) hm' hs' hbody
    · have hparen := hleaves []
      rw [hself, List.cons_append] at hparen
      rw [List.append_assoc, List.cons_append] at hr'
      obtain ⟨m'', s'', hm'', hs'', hr''⟩ := hr'.next ((hskip _).symm ▸ hparen)
      cases hm'.symm.trans hm''
      cases hs'.symm.trans hs''
      exact hspoilt r' hr''

end Grouped

end Regex

end TreeQuery
