import TreeQuery.Proofs.Regex.Cutting
import TreeQuery.Proofs.Regex.Spans
import TreeQuery.Regex.Source

namespace TreeQuery.Regex

open Token

theorem finish?_eq_some {s : Reading} {r : Regex} :
    s.finish? = some r ↔ s.outer = [] ∧ s.classes = [] ∧ s.group.toRegex = r := by
  unfold Reading.finish?
  split <;> simp_all

/-- The mode counts the groups and classes that the reading keeps. -/
structure Coupled (m : Mode) (s : Reading) : Prop where
  classes : m.classes = s.classes.length
  outer : m.outer.length = s.outer.length

theorem coupled_start : Coupled .start .start :=
  ⟨rfl, rfl⟩

theorem Coupled.outer_eq_nil {m : Mode} {s : Reading} (h : Coupled m s) :
    m.outer = [] ↔ s.outer = [] := by
  rw [← List.length_eq_zero_iff, h.outer, List.length_eq_zero_iff]

theorem Coupled.classes_eq_zero {m : Mode} {s : Reading} (h : Coupled m s) :
    m.classes = 0 ↔ s.classes = [] := by
  rw [h.classes, List.length_eq_zero_iff]

/-- A repetition may go on for as many rounds as it has to. -/
def Ordered : Token → Prop
  | repetition min max => ∀ m ∈ max, min ≤ m
  | _ => True

section Kinds

variable {spaced : Bool} {cs rest : List Char} {tok : Token}

theorem le_of_bounds? {min : Nat} {max : Option Nat}
    (h : bounds? spaced cs = some (min, max, rest)) : ∀ m ∈ max, min ≤ m := by
  unfold bounds? at h
  simp only at h
  split at h
  · obtain ⟨n, _, he⟩ := Option.map_eq_some_iff.mp h
    cases he
    rintro m hm
    cases hm
    exact Nat.le_refl _
  · split at h
    · obtain ⟨n, _, he⟩ := Option.map_eq_some_iff.mp h
      cases he
      exact fun m hm => by cases hm
    · split at h
      · obtain ⟨least, _, h⟩ := Option.bind_eq_some_iff.mp h
        obtain ⟨most, _, h⟩ := Option.bind_eq_some_iff.mp h
        split at h
        · rename_i hle
          cases h
          rintro m hm
          cases hm
          exact hle
        · cases h
      · cases h
  · cases h

theorem ordered_of_isEscape (h : tok.isEscape = true) : Ordered tok := by
  cases tok <;> trivial

/-- The tokens that an opening parenthesis may stand for. -/
def isGroup : Token → Bool
  | groupOpen _ _ | setFlags _ => true
  | _ => false

theorem ordered_of_isGroup (h : isGroup tok = true) : Ordered tok := by
  cases tok <;> trivial

theorem eq_classOpen_of_classOpen? (h : classOpen? spaced cs = some (tok, rest)) :
    ∃ negated literals, tok = classOpen negated literals := by
  rw [classOpen?_eq] at h
  split at h
  · cases h
    exact ⟨_, _, rfl⟩
  · cases h
  · cases h
    exact ⟨_, _, rfl⟩

end Kinds

theorem proper_seqAll {rs : List Regex} (h : ∀ r ∈ rs, r.Proper) : (seqAll rs).Proper := by
  fun_induction seqAll rs with
  | case1 => trivial
  | case2 r => exact h r List.mem_cons_self
  | case3 r rs _ ih =>
    obtain ⟨hr, hrs⟩ := List.forall_mem_cons.mp h
    exact ⟨hr, ih hrs⟩

theorem proper_altAll {rs : List Regex} {r : Regex} (h : ∀ r ∈ rs, r.Proper) (hr : r.Proper) :
    (altAll rs r).Proper := by
  induction rs with
  | nil => exact hr
  | cons q rs ih =>
    obtain ⟨hq, hrs⟩ := List.forall_mem_cons.mp h
    exact ⟨hq, ih hrs⟩

structure Group.Proper (g : Group) : Prop where
  arms : ∀ r ∈ g.arms, r.Proper
  items : ∀ r, some r ∈ g.items → r.Proper

theorem Group.Proper.arm {g : Group} (h : g.Proper) : g.arm.Proper := by
  refine proper_seqAll fun r hr => ?_
  obtain ⟨item, hitem, rfl⟩ := List.mem_filterMap.mp hr
  exact h.items r (List.mem_reverse.mp hitem)

theorem Group.Proper.toRegex {g : Group} (h : g.Proper) : g.toRegex.Proper :=
  proper_altAll (fun r hr => h.arms r (List.mem_reverse.mp hr)) h.arm

theorem Group.proper_start (flags : Flags) : (Group.start flags).Proper :=
  ⟨fun _ hr => absurd hr List.not_mem_nil, fun _ hr => absurd hr List.not_mem_nil⟩

theorem Group.Proper.push {g : Group} (h : g.Proper) {r : Regex} (hr : r.Proper) :
    (g.push r).Proper := by
  refine ⟨h.arms, fun q hq => ?_⟩
  rcases List.mem_cons.mp hq with he | hq
  · cases he
    exact hr
  · exact h.items q hq

structure Reading.Proper (s : Reading) : Prop where
  group : s.group.Proper
  outer : ∀ g ∈ s.outer, g.Proper

theorem Reading.Proper.push {s : Reading} (h : s.Proper) {r : Regex} (hr : r.Proper) :
    (s.push r).Proper :=
  ⟨h.group.push hr, h.outer⟩

theorem Reading.proper_start : Reading.start.Proper :=
  ⟨Group.proper_start _, fun _ hg => absurd hg List.not_mem_nil⟩

variable [Unicode.Tables]

/-- The token at the head of what is visible. -/
def head? (m : Mode) (cs : List Char) : Option (Token × List Char) :=
  if m.classes = 0 then outside? m.spaced cs else inside? m.spaced cs

theorem head?_nil (m : Mode) : head? m [] = none := by
  unfold head?
  split <;> rfl

/-- From the mode and the reading on, the text completes the expression. -/
inductive Reads : Mode → Reading → List Char → Regex → Prop
  | done {m s cs r} : skip m.spaced cs = [] → s.finish? = some r → Reads m s cs r
  | step {m s cs tok rest m' s' r} : head? m (skip m.spaced cs) = some (tok, rest) →
      rest.length < cs.length → m.next? tok = some m' → s.next? tok = some s' →
      Reads m' s' rest r → Reads m s cs r

section Reads

variable {m : Mode} {s : Reading} {cs rest : List Char} {tok : Token} {r : Regex}

theorem reads_iff_of_skip (h : skip m.spaced cs = []) : Reads m s cs r ↔ s.finish? = some r := by
  refine ⟨fun hr => ?_, .done h⟩
  cases hr with
  | done _ hfinish => exact hfinish
  | step hhead =>
    rw [h, head?_nil] at hhead
    cases hhead

/-- What is visible decides how the text goes on. -/
theorem Reads.next (h : Reads m s cs r) (hhead : head? m (skip m.spaced cs) = some (tok, rest)) :
    ∃ m' s', m.next? tok = some m' ∧ s.next? tok = some s' ∧ Reads m' s' rest r := by
  cases h with
  | done hskip =>
    rw [hskip, head?_nil] at hhead
    cases hhead
  | step hhead' _ hm hs h =>
    rw [hhead] at hhead'
    cases hhead'
    exact ⟨_, _, hm, hs, h⟩

theorem cut?_of_head? (hhead : head? m (skip m.spaced cs) = some (tok, rest))
    (hlt : rest.length < cs.length) :
    cut? m cs = (m.next? tok).bind fun m => (cut? m rest).map (tok :: ·) := by
  rcases hskip : skip m.spaced cs with _ | ⟨c, visible⟩
  · rw [hskip, head?_nil] at hhead
    cases hhead
  · rw [hskip] at hhead
    rw [cut?, hskip]
    change (head? m (c :: visible)).bind _ = _
    rw [hhead, Option.bind_some]
    exact if_pos hlt

end Reads

/-- All the tokens are cut first, and read afterwards. -/
theorem reads_iff {m : Mode} {s : Reading} {cs : List Char} {r : Regex} :
    Reads m s cs r ↔
      ∃ ts, cut? m cs = some ts ∧ (ts.foldlM Reading.next? s).bind Reading.finish? = some r := by
  constructor
  · intro h
    induction h with
    | done hskip hfinish =>
      refine ⟨[], ?_, hfinish⟩
      rw [cut?, hskip]
    | @step m s cs tok rest m' s' r hhead hlt hm hs _ ih =>
      obtain ⟨ts, hts, hr⟩ := ih
      refine ⟨tok :: ts, ?_, ?_⟩
      · rw [cut?_of_head? hhead hlt, hm, Option.bind_some, hts]
        rfl
      · rw [List.foldlM_cons, hs]
        exact hr
  · rintro ⟨ts, hts, hr⟩
    fun_induction cut? m cs generalizing s ts with
    | case1 m cs hskip =>
      cases hts
      exact .done hskip hr
    | case2 m cs _ ih =>
      obtain ⟨⟨tok, rest⟩, hhead, h⟩ := Option.bind_eq_some_iff.mp hts
      by_cases hlt : rest.length < cs.length
      · simp only [if_pos hlt] at h
        obtain ⟨m', hm, h⟩ := Option.bind_eq_some_iff.mp h
        obtain ⟨more, hmore, rfl⟩ := Option.map_eq_some_iff.mp h
        rw [List.foldlM_cons] at hr
        cases hs : s.next? tok with
        | none =>
          rw [hs] at hr
          cases hr
        | some s' =>
          rw [hs] at hr
          exact .step hhead hlt hm hs (ih rest hlt m' more hmore hr)
      · simp only [if_neg hlt] at h
        cases h

theorem ofSource?_eq_some {source : String} {r : Regex} :
    ofSource? source = some r ↔ Reads .start .start source.toList r := by
  rw [reads_iff, ofSource?, Option.bind_eq_some_iff]
  rfl

/-- Groups open and close outside classes only. -/
theorem Coupled.outside? {m m' : Mode} {s s' : Reading} {tok : Token} (h : Coupled m s)
    (hclasses : s.classes = []) (hm : m.next? tok = some m') (hs : s.outside? tok = some s') :
    Coupled m' s' := by
  have hzero : m.classes = 0 := h.classes_eq_zero.mpr hclasses
  cases tok with
  | groupOpen name change =>
    simp only [Reading.outside?] at hs
    split at hs
    · cases hs
    · cases hs
      cases hm
      exact ⟨h.classes, congrArg (· + 1) h.outer⟩
  | groupClose =>
    simp only [Reading.outside?] at hs
    simp only [Mode.next?] at hm
    split at hs
    · rename_i hgroups
      split at hm
      · rename_i hmodes
        cases hs
        cases hm
        have hlength := h.outer
        rw [hmodes, hgroups] at hlength
        exact ⟨h.classes, Nat.succ.inj hlength⟩
      · cases hm
    · cases hs
  | classOpen negated literals =>
    cases hm
    cases hs
    exact ⟨by rw [hzero]; rfl, h.outer⟩
  | dot | shorthand =>
    cases hm
    obtain ⟨r, _, rfl⟩ := Option.map_eq_some_iff.mp hs
    exact ⟨h.classes, h.outer⟩
  | property =>
    cases hm
    simp only [Reading.outside?] at hs
    split at hs
    · cases hs
      exact ⟨h.classes, h.outer⟩
    · cases hs
  | repetition =>
    cases hm
    simp only [Reading.outside?] at hs
    split at hs
    · cases hs
      exact ⟨h.classes, h.outer⟩
    · cases hs
  | _ =>
    cases hm
    cases hs
    try exact ⟨h.classes, h.outer⟩

theorem Coupled.inside? {m m' : Mode} {s s' : Reading} {k : OpenClass} {ks : List OpenClass}
    {tok : Token} (h : Coupled m s) (hclasses : s.classes = k :: ks)
    (hm : m.next? tok = some m') (hs : s.inside? k ks tok = some s') : Coupled m' s' := by
  have hlength : m.classes = ks.length + 1 := by rw [h.classes, hclasses]; rfl
  cases tok with
  | classOpen negated literals =>
    cases hm
    cases hs
    exact ⟨by rw [hlength]; rfl, h.outer⟩
  | classClose =>
    cases hm
    simp only [Reading.inside?] at hs
    split at hs
    · cases hs
      exact ⟨by rw [hlength]; rfl, h.outer⟩
    · obtain ⟨r, _, rfl⟩ := Option.map_eq_some_iff.mp hs
      exact ⟨by rw [hlength]; rfl, h.outer⟩
  | property =>
    cases hm
    simp only [Reading.inside?] at hs
    split at hs
    · cases hs
      exact ⟨hlength, h.outer⟩
    · cases hs
  | _ =>
    cases hs
    try
      cases hm
      exact ⟨hlength, h.outer⟩

theorem Coupled.next? {m m' : Mode} {s s' : Reading} {tok : Token} (h : Coupled m s)
    (hm : m.next? tok = some m') (hs : s.next? tok = some s') : Coupled m' s' := by
  unfold Reading.next? at hs
  split at hs
  · rename_i hclasses
    exact h.outside? hclasses hm hs
  · rename_i hclasses
    exact h.inside? hclasses hm hs

section Rounds

variable {spaced : Bool} {cs rest : List Char}

theorem isGroup_of_named? {tok : Token} (h : named? cs = some (tok, rest)) :
    isGroup tok = true := by
  unfold named? at h
  split at h
  · split at h
    · cases h
      rfl
    · cases h
  · cases h

theorem isGroup_of_group? {tok : Token} (h : group? spaced cs = some (tok, rest)) :
    isGroup tok = true := by
  unfold group? at h
  split at h
  · exact isGroup_of_named? h
  · exact isGroup_of_named? h
  · split at h
    · obtain ⟨_, _, he⟩ := Option.map_eq_some_iff.mp h
      cases he
      rfl
    · split at h
      · cases h
      · obtain ⟨_, _, he⟩ := Option.map_eq_some_iff.mp h
        cases he
        rfl
    · cases h
  · cases h
    rfl

theorem ordered_of_outside? {tok : Token} (h : outside? spaced cs = some (tok, rest)) :
    Ordered tok := by
  unfold outside? at h
  split at h
  case h_1 => cases h
  case h_2 => exact ordered_of_isGroup (isGroup_of_group? h)
  case h_5 =>
    obtain ⟨negated, literals, rfl⟩ := eq_classOpen_of_classOpen? h
    trivial
  case h_6 | h_7 | h_8 =>
    cases h
    simp [Ordered]
  case h_9 =>
    obtain ⟨⟨min, max, left⟩, hbounds, he⟩ := Option.map_eq_some_iff.mp h
    cases he
    exact le_of_bounds? hbounds
  case h_10 => exact ordered_of_isEscape (isEscape_of_escape? h)
  all_goals
    cases h
    trivial

theorem Flags.proper_of_set? {flags : Flags} {a : CharClass} {r : Regex}
    (h : flags.set? a = some r) : r.Proper := by
  unfold Flags.set? at h
  split at h
  · cases h
  · cases h
    trivial

theorem Reading.Proper.outside? {s s' : Reading} {tok : Token} (h : s.Proper) (htok : Ordered tok)
    (hs : s.outside? tok = some s') : s'.Proper := by
  cases tok with
  | literal | caret | dollar | textStart | textEnd | word =>
    cases hs
    exact h.push trivial
  | dot | shorthand =>
    obtain ⟨r, hr, rfl⟩ := Option.map_eq_some_iff.mp hs
    exact h.push (Flags.proper_of_set? hr)
  | property p negated =>
    simp only [Reading.outside?] at hs
    split at hs
    · cases hs
      exact h.push trivial
    · cases hs
  | groupOpen name change =>
    simp only [Reading.outside?] at hs
    split at hs
    · cases hs
    · cases hs
      exact ⟨Group.proper_start _, List.forall_mem_cons.mpr ⟨h.group, h.outer⟩⟩
  | setFlags change =>
    cases hs
    refine ⟨⟨h.group.arms, fun r hr => h.group.items r ?_⟩, h.outer⟩
    exact (List.mem_cons.mp hr).resolve_left nofun
  | groupClose =>
    simp only [Reading.outside?] at hs
    split at hs
    · rename_i g outer houter
      cases hs
      obtain ⟨hg, houters⟩ := List.forall_mem_cons.mp (houter ▸ h.outer)
      exact ⟨hg.push h.group.toRegex, houters⟩
    · cases hs
  | bar =>
    cases hs
    exact ⟨⟨List.forall_mem_cons.mpr ⟨h.group.arm, h.group.arms⟩, nofun⟩, h.outer⟩
  | repetition min max =>
    simp only [Reading.outside?] at hs
    split at hs
    · rename_i r items hitems
      cases hs
      have hr : r.Proper := h.group.items r (hitems ▸ List.mem_cons_self)
      refine ⟨⟨h.group.arms, fun q hq => ?_⟩, h.outer⟩
      rcases List.mem_cons.mp hq with he | hq
      · cases he
        exact ⟨hr, htok⟩
      · exact h.group.items q (hitems ▸ List.mem_cons_of_mem _ hq)
    · cases hs
  | classOpen =>
    cases hs
    exact ⟨h.group, h.outer⟩
  | classRange | posix | operation | classClose => cases hs

theorem Reading.Proper.inside? {s s' : Reading} {k : OpenClass} {ks : List OpenClass} {tok : Token}
    (h : s.Proper) (hs : s.inside? k ks tok = some s') : s'.Proper := by
  cases tok with
  | classClose =>
    simp only [Reading.inside?] at hs
    split at hs
    · cases hs
      exact ⟨h.group, h.outer⟩
    · obtain ⟨r, hr, rfl⟩ := Option.map_eq_some_iff.mp hs
      exact ⟨h.group.push (Flags.proper_of_set? hr), h.outer⟩
  | property p negated =>
    simp only [Reading.inside?] at hs
    split at hs
    · cases hs
      exact ⟨h.group, h.outer⟩
    · cases hs
  | _ =>
    cases hs
    try exact ⟨h.group, h.outer⟩

/-- Whatever is read as an expression is proper. -/
theorem Reads.proper {m : Mode} {s : Reading} {r : Regex} (h : Reads m s cs r)
    (hcoupled : Coupled m s) (hs : s.Proper) : r.Proper := by
  induction h with
  | done _ hfinish =>
    unfold Reading.finish? at hfinish
    split at hfinish
    · cases hfinish
      exact hs.group.toRegex
    · cases hfinish
  | @step m s cs tok rest m' s' r hhead _ hm hnext _ ih =>
    refine ih (hcoupled.next? hm hnext) ?_
    unfold Reading.next? at hnext
    split at hnext
    · rename_i hclasses
      have hzero : m.classes = 0 := hcoupled.classes_eq_zero.mpr hclasses
      rw [head?, if_pos hzero] at hhead
      exact hs.outside? (ordered_of_outside? hhead) hnext
    · exact hs.inside? hnext

end Rounds

theorem proper_of_ofSource? {source : String} {r : Regex} (h : ofSource? source = some r) :
    r.Proper :=
  (ofSource?_eq_some.mp h).proper coupled_start Reading.proper_start

end TreeQuery.Regex
