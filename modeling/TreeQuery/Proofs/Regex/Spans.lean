import TreeQuery.Regex.Matching

namespace TreeQuery.Regex

/-- A stretch that is made of so many stretches one after another. -/
def Rounds (spans : List Char → List Char → List Char → Prop) :
    Nat → List Char → List Char → List Char → Prop
  | 0, _, text, _ => text = []
  | n + 1, before, text, after =>
    ∃ first others, text = first ++ others ∧ spans before first (others ++ after) ∧
      Rounds spans n (before ++ first) others after

section Rounds

variable {spans : List Char → List Char → List Char → Prop} {before after : List Char}

theorem rounds_nil (n : Nat) (h : spans before [] after) : Rounds spans n before [] after := by
  induction n with
  | zero => rfl
  | succ n ih => exact ⟨[], [], rfl, h, by rwa [List.append_nil]⟩

theorem of_rounds_nil {n : Nat} (h : Rounds spans (n + 1) before [] after) :
    spans before [] after := by
  obtain ⟨first, others, he, hfirst, _⟩ := h
  obtain ⟨rfl, rfl⟩ := List.append_eq_nil_iff.mp he.symm
  exact hfirst

/-- Of the rounds over a text that is not empty, some match nothing, the next one the first
character, and the others what is left. -/
theorem rounds_cons {c : Char} {text : List Char} {n : Nat}
    (h : Rounds spans n before (c :: text) after) :
    ∃ first others k, text = first ++ others ∧ k < n ∧
      (k + 1 < n → spans before [] (c :: text ++ after)) ∧
      spans before (c :: first) (others ++ after) ∧
      Rounds spans k (before ++ c :: first) others after := by
  induction n with
  | zero => cases h
  | succ n ih =>
    obtain ⟨first, others, he, hfirst, hothers⟩ := h
    cases first with
    | nil =>
      obtain rfl : c :: text = others := he
      rw [List.append_nil] at hothers
      obtain ⟨first, others, k, he, hk, _, hspans, hrounds⟩ := ih hothers
      exact ⟨first, others, k, he, Nat.lt_succ_of_lt hk, fun _ => hfirst, hspans, hrounds⟩
    | cons d first =>
      obtain ⟨rfl, rfl⟩ := List.cons.inj he
      refine ⟨first, others, n, rfl, Nat.lt_succ_self n, fun hlt => ?_, hfirst, hothers⟩
      exact absurd hlt (Nat.lt_irrefl _)

/-- Rounds that match nothing may be put in front. -/
theorem rounds_add {text : List Char} {n : Nat} (k : Nat)
    (hempty : spans before [] (text ++ after)) (h : Rounds spans n before text after) :
    Rounds spans (k + n) before text after := by
  induction k with
  | zero => rwa [Nat.zero_add]
  | succ k ih =>
    rw [Nat.succ_add]
    exact ⟨[], text, rfl, hempty, by rwa [List.append_nil]⟩

end Rounds

variable [Unicode.Tables]

/-- The expression matches `text`, standing between `before` and `after`. -/
def Spans : Regex → List Char → List Char → List Char → Prop
  | empty, _, text, _ => text = []
  | set cls, _, text, _ => ∃ c, text = [c] ∧ cls.contains c = true
  | look assertion, before, text, after =>
    text = [] ∧ assertion.holds before.getLast? after.head? = true
  | seq r s, before, text, after =>
    ∃ first second, text = first ++ second ∧ r.Spans before first (second ++ after) ∧
      s.Spans (before ++ first) second after
  | alt r s, before, text, after => r.Spans before text after ∨ s.Spans before text after
  | repeated r min max, before, text, after =>
    ∃ n, min ≤ n ∧ (∀ m ∈ max, n ≤ m) ∧ Rounds r.Spans n before text after

/-- Every repetition allows for as many rounds as it requires. -/
def Proper : Regex → Prop
  | seq r s | alt r s => r.Proper ∧ s.Proper
  | repeated r min max => r.Proper ∧ ∀ m ∈ max, min ≤ m
  | empty | set _ | look _ => True

theorem nullable_iff {r : Regex} (hr : r.Proper) (before after : List Char) :
    r.nullable before.getLast? after.head? = true ↔ r.Spans before [] after := by
  induction r with
  | empty => simp [nullable, Spans]
  | set cls => simp [nullable, Spans]
  | look assertion => simp [nullable, Spans]
  | seq r s ihr ihs =>
    rw [nullable, Bool.and_eq_true, ihr hr.1, ihs hr.2]
    constructor
    · rintro ⟨hr, hs⟩
      exact ⟨[], [], rfl, hr, by rwa [List.append_nil]⟩
    · rintro ⟨first, second, he, hr, hs⟩
      obtain ⟨rfl, rfl⟩ := List.append_eq_nil_iff.mp he.symm
      rw [List.append_nil] at hs
      exact ⟨hr, hs⟩
  | alt r s ihr ihs => rw [nullable, Bool.or_eq_true, ihr hr.1, ihs hr.2, Spans]
  | repeated r min max ih =>
    rw [nullable, Bool.or_eq_true, beq_iff_eq, ih hr.1]
    constructor
    · rintro (rfl | h)
      · exact ⟨0, Nat.le_refl _, fun _ _ => Nat.zero_le _, rfl⟩
      · exact ⟨min, Nat.le_refl _, hr.2, rounds_nil min h⟩
    · rintro ⟨n, hmin, _, h⟩
      cases n with
      | zero => exact .inl (Nat.le_zero.mp hmin)
      | succ n => exact .inr (of_rounds_nil h)

theorem proper_of_mem_rest {r : Regex} (hr : r.Proper) {before : Option Char} {c : Char} :
    ∀ s ∈ r.rest before c, s.Proper := by
  induction r with
  | empty | look _ => exact fun s hs => absurd hs List.not_mem_nil
  | set cls =>
    intro s hs
    rw [rest] at hs
    split at hs
    · rw [List.mem_singleton.mp hs]
      trivial
    · cases hs
  | seq r s ihr ihs =>
    intro q hq
    rw [rest, List.mem_append, List.mem_map] at hq
    rcases hq with ⟨p, hp, rfl⟩ | hq
    · exact ⟨ihr hr.1 p hp, hr.2⟩
    · split at hq
      · exact ihs hr.2 q hq
      · cases hq
  | alt r s ihr ihs =>
    intro q hq
    rcases List.mem_append.mp hq with hq | hq
    · exact ihr hr.1 q hq
    · exact ihs hr.2 q hq
  | repeated r min max ih =>
    intro q hq
    rw [rest] at hq
    split at hq
    · cases hq
    · obtain ⟨p, hp, rfl⟩ := List.mem_map.mp hq
      refine ⟨ih hr.1 p hp, hr.1, fun m hm => ?_⟩
      obtain ⟨k, hk, rfl⟩ := Option.map_eq_some_iff.mp hm
      have hle := hr.2 k hk
      split <;> omega

section Rest

variable {r s : Regex} {before : List Char} {c : Char}

/-- Whatever matches once `c` has been read matches together with it. -/
def RestSpans (r : Regex) (before : List Char) (c : Char) : Prop :=
  ∀ text after, (∃ s ∈ r.rest before.getLast? c, s.Spans (before ++ [c]) text after) ↔
    r.Spans before (c :: text) after

theorem nullable_cons_iff (hr : r.Proper) (text after : List Char) :
    r.nullable before.getLast? (some c) = true ↔ r.Spans before [] (c :: text ++ after) :=
  nullable_iff hr before (c :: text ++ after)

theorem restSpans_set (cls : CharClass) : (set cls).RestSpans before c := by
  intro text after
  rw [rest]
  constructor
  · rintro ⟨s, hs, hspans⟩
    split at hs
    · rename_i hc
      cases List.mem_singleton.mp hs
      obtain rfl : text = [] := hspans
      exact ⟨c, rfl, hc⟩
    · cases hs
  · rintro ⟨d, he, hd⟩
    obtain ⟨rfl, rfl⟩ := List.cons.inj he
    rw [if_pos hd]
    exact ⟨empty, List.mem_cons_self, rfl⟩

theorem restSpans_seq (hproper : r.Proper) (hr : r.RestSpans before c)
    (hs : s.RestSpans before c) : (seq r s).RestSpans before c := by
  intro text after
  have hnullable : r.nullable before.getLast? (some c) = true ↔
      r.Spans before [] (c :: text ++ after) := nullable_cons_iff hproper text after
  constructor
  · rintro ⟨q, hq, hspans⟩
    rw [rest, List.mem_append, List.mem_map] at hq
    rcases hq with ⟨p, hp, rfl⟩ | hq
    · obtain ⟨first, second, rfl, hfirst, hsecond⟩ := hspans
      have hbegin := (hr first (second ++ after)).mp ⟨p, hp, hfirst⟩
      exact ⟨c :: first, second, rfl, hbegin, by rwa [List.append_assoc] at hsecond⟩
    · split at hq
      · rename_i hnull
        have hwhole := (hs text after).mp ⟨q, hq, hspans⟩
        exact ⟨[], c :: text, rfl, hnullable.mp hnull, by rwa [List.append_nil]⟩
      · cases hq
  · rintro ⟨first, second, he, hfirst, hsecond⟩
    rw [rest]
    cases first with
    | nil =>
      obtain rfl : c :: text = second := he
      rw [List.append_nil] at hsecond
      obtain ⟨q, hq, hspans⟩ := (hs text after).mpr hsecond
      rw [if_pos (hnullable.mpr hfirst)]
      exact ⟨q, List.mem_append_right _ hq, hspans⟩
    | cons d first =>
      obtain ⟨rfl, rfl⟩ := List.cons.inj he
      obtain ⟨p, hp, hspans⟩ := (hr first (second ++ after)).mpr hfirst
      exact ⟨seq p s, List.mem_append_left _ (List.mem_map.mpr ⟨p, hp, rfl⟩), first, second, rfl,
        hspans, by rwa [List.append_assoc]⟩

/-- Rounds that match nothing before the first character can be made up for afterwards, so that they
count only towards the rounds that are required. -/
theorem restSpans_repeated {min : Nat} {max : Option Nat} (hproper : (repeated r min max).Proper)
    (hr : r.RestSpans before c) : (repeated r min max).RestSpans before c := by
  intro text after
  have hnullable : r.nullable before.getLast? (some c) = true ↔
      r.Spans before [] (c :: text ++ after) := nullable_cons_iff hproper.1 text after
  rw [rest]
  constructor
  · rintro ⟨q, hq, hspans⟩
    split at hq
    · cases hq
    rename_i hmax
    obtain ⟨p, hp, rfl⟩ := List.mem_map.mp hq
    obtain ⟨first, others, rfl, hfirst, n, hmin, hlimit, hrounds⟩ := hspans
    have hbegin := (hr first (others ++ after)).mp ⟨p, hp, hfirst⟩
    have hround : Rounds r.Spans (n + 1) before (c :: (first ++ others)) after :=
      ⟨c :: first, others, rfl, hbegin, by rwa [List.append_assoc] at hrounds⟩
    have hle : ∀ m ∈ max, n + 1 ≤ m := by
      intro m hm
      have hn : n ≤ m - 1 := hlimit (m - 1) (Option.map_eq_some_iff.mpr ⟨m, hm, rfl⟩)
      have hpos : m ≠ 0 := by
        rintro rfl
        exact hmax hm
      omega
    split at hmin
    · rename_i hnull
      refine ⟨min - (n + 1) + (n + 1), by omega, fun m hm => ?_,
        rounds_add _ (hnullable.mp hnull) hround⟩
      have hlow := hproper.2 m hm
      have hhigh := hle m hm
      omega
    · exact ⟨n + 1, by omega, hle, hround⟩
  · rintro ⟨n, hmin, hlimit, hrounds⟩
    obtain ⟨first, others, k, rfl, hk, hempty, hfirst, hothers⟩ := rounds_cons hrounds
    have hmax : max ≠ some 0 := by
      rintro rfl
      have hzero := hlimit 0 rfl
      omega
    obtain ⟨p, hp, hspans⟩ := (hr first (others ++ after)).mpr hfirst
    rw [if_neg hmax]
    refine ⟨_, List.mem_map.mpr ⟨p, hp, rfl⟩, first, others, rfl, hspans, k, ?_, ?_,
      by rwa [List.append_assoc]⟩
    · split
      · exact Nat.zero_le _
      · rename_i hnull
        have hlast : ¬k + 1 < n := fun hlt => hnull (hnullable.mpr (hempty hlt))
        omega
    · intro m hm
      obtain ⟨l, hl, rfl⟩ := Option.map_eq_some_iff.mp hm
      have hn := hlimit l hl
      omega

theorem restSpans (hr : r.Proper) : r.RestSpans before c := by
  induction r with
  | empty | look _ =>
    intro text after
    simp [rest, Spans]
  | set cls => exact restSpans_set cls
  | seq r s ihr ihs => exact restSpans_seq hr.1 (ihr hr.1) (ihs hr.2)
  | alt r s ihr ihs =>
    intro text after
    rw [Spans, ← ihr hr.1, ← ihs hr.2, rest]
    simp only [List.mem_append, or_and_right, exists_or]
  | repeated r min max ih => exact restSpans_repeated hr (ih hr.1)

end Rest

/-- Some stretch of `text` from its beginning on matches after `before`. -/
def Begins (r : Regex) (before text : List Char) : Prop :=
  ∃ matched after, text = matched ++ after ∧ r.Spans before matched after

theorem begins_nil {r : Regex} (hr : r.Proper) (before : List Char) :
    r.Begins before [] ↔ r.nullable before.getLast? none = true := by
  have hnullable := nullable_iff hr before []
  rw [List.head?_nil] at hnullable
  rw [hnullable]
  constructor
  · rintro ⟨matched, after, he, h⟩
    obtain ⟨rfl, rfl⟩ := List.append_eq_nil_iff.mp he.symm
    exact h
  · exact fun h => ⟨[], [], rfl, h⟩

/-- A match is empty, or what is left of it begins after the first character. -/
theorem begins_cons {r : Regex} (hr : r.Proper) (before : List Char) (c : Char)
    (text : List Char) : r.Begins before (c :: text) ↔
      r.nullable before.getLast? (some c) = true ∨
        ∃ s ∈ r.rest before.getLast? c, s.Begins (before ++ [c]) text := by
  have hnullable := nullable_iff hr before (c :: text)
  rw [List.head?_cons] at hnullable
  rw [hnullable]
  constructor
  · rintro ⟨matched, after, he, h⟩
    cases matched with
    | nil =>
      obtain rfl : c :: text = after := he
      exact .inl h
    | cons d matched =>
      obtain ⟨rfl, rfl⟩ := List.cons.inj he
      obtain ⟨s, hs, hspans⟩ := (restSpans hr matched after).mpr h
      exact .inr ⟨s, hs, matched, after, rfl, hspans⟩
  · rintro (h | ⟨s, hs, matched, after, rfl, hspans⟩)
    · exact ⟨[], c :: text, rfl, h⟩
    · exact ⟨c :: matched, after, rfl, (restSpans hr matched after).mp ⟨s, hs, hspans⟩⟩

/-- The same of several expressions, of which one has to match. -/
theorem any_begins_cons {states : List Regex} (hs : ∀ s ∈ states, s.Proper) (before : List Char)
    (c : Char) (text : List Char) : (∃ s ∈ states, s.Begins before (c :: text)) ↔
      states.any (·.nullable before.getLast? (some c)) = true ∨
        ∃ s ∈ states.flatMap (·.rest before.getLast? c), s.Begins (before ++ [c]) text := by
  rw [List.any_eq_true]
  constructor
  · rintro ⟨s, hm, h⟩
    rcases (begins_cons (hs s hm) before c text).mp h with hnull | ⟨q, hq, h⟩
    · exact .inl ⟨s, hm, hnull⟩
    · exact .inr ⟨q, List.mem_flatMap.mpr ⟨s, hm, hq⟩, h⟩
  · rintro (⟨s, hm, hnull⟩ | ⟨q, hq, h⟩)
    · exact ⟨s, hm, (begins_cons (hs s hm) before c text).mpr (.inl hnull)⟩
    · obtain ⟨s, hm, hq⟩ := List.mem_flatMap.mp hq
      exact ⟨s, hm, (begins_cons (hs s hm) before c text).mpr (.inr ⟨q, hq, h⟩)⟩

/-- A match of the expression that begins here or later. -/
def Occurs (r : Regex) (before text : List Char) : Prop :=
  ∃ skipped left, text = skipped ++ left ∧ r.Begins (before ++ skipped) left

theorem occurs_nil {r : Regex} {before : List Char} : r.Occurs before [] ↔ r.Begins before [] := by
  constructor
  · rintro ⟨skipped, left, he, h⟩
    obtain ⟨rfl, rfl⟩ := List.append_eq_nil_iff.mp he.symm
    rwa [List.append_nil] at h
  · exact fun h => ⟨[], [], rfl, by rwa [List.append_nil]⟩

theorem occurs_cons {r : Regex} {before : List Char} {c : Char} {text : List Char} :
    r.Occurs before (c :: text) ↔
      r.Begins before (c :: text) ∨ r.Occurs (before ++ [c]) text := by
  constructor
  · rintro ⟨skipped, left, he, h⟩
    cases skipped with
    | nil =>
      obtain rfl : c :: text = left := he
      exact .inl (by rwa [List.append_nil] at h)
    | cons d skipped =>
      obtain ⟨rfl, rfl⟩ := List.cons.inj he
      exact .inr ⟨skipped, left, rfl, by rwa [List.append_assoc]⟩
  · rintro (h | ⟨skipped, left, rfl, h⟩)
    · exact ⟨[], c :: text, rfl, by rwa [List.append_nil]⟩
    · exact ⟨c :: skipped, left, rfl, by rwa [List.append_assoc] at h⟩

/-- What is found is a match of one of the states that begins here, or a match of the expression
that begins here or later. -/
theorem found_iff {r : Regex} (hr : r.Proper) (before text : List Char) {states : List Regex}
    (hs : ∀ s ∈ states, s.Proper) : r.found before.getLast? states text = true ↔
      (∃ s ∈ states, s.Begins before text) ∨ r.Occurs before text := by
  induction text generalizing before states with
  | nil =>
    have hstates : states.any (·.nullable before.getLast? none) = true ↔
        ∃ s ∈ states, s.Begins before [] := by
      rw [List.any_eq_true]
      exact exists_congr fun s => and_congr_right fun hm => (begins_nil (hs s hm) before).symm
    rw [found, Bool.or_eq_true, hstates, ← begins_nil hr, occurs_nil]
  | cons c text ih =>
    have hall : ∀ s ∈ r :: states, s.Proper := List.forall_mem_cons.mpr ⟨hr, hs⟩
    have hnext : ∀ s ∈ ((r :: states).flatMap (·.rest before.getLast? c)).eraseDups,
        s.Proper := by
      intro s hm
      obtain ⟨q, hq, hm⟩ := List.mem_flatMap.mp (List.mem_eraseDups.mp hm)
      exact proper_of_mem_rest (hall q hq) s hm
    have hfound := ih (before ++ [c]) hnext
    rw [List.getLast?_concat] at hfound
    simp only [List.mem_eraseDups] at hfound
    have hbegins := any_begins_cons hall before c text
    simp only [List.any_cons, Bool.or_eq_true, List.mem_cons, exists_eq_or_imp] at hbegins
    rw [found, Bool.or_eq_true, Bool.or_eq_true, hfound, occurs_cons]
    grind

/-- A match is found exactly if there is one somewhere in the text. -/
theorem isMatch_iff {r : Regex} (hr : r.Proper) (text : List Char) :
    r.isMatch text = true ↔ r.Occurs [] text := by
  have hnone : ∀ s ∈ ([] : List Regex), s.Proper := fun _ hs => absurd hs List.not_mem_nil
  have h := found_iff hr [] text hnone
  simpa [isMatch] using h

end TreeQuery.Regex
