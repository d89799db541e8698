import TreeQuery.Proofs.Grammar.Expressions
import TreeQuery.Proofs.Text.Runs

namespace TreeQuery.Grammar

open Text

variable {R : Type}

namespace Expr

def any : Expr R :=
  .char fun _ => true

def sign (c : Char) : Expr R :=
  .char (· == c)

def oneOf (cs : List Char) : Expr R :=
  .char cs.contains

def opt (e : Expr R) : Expr R :=
  .choice e .empty

def many1 (e : Expr R) : Expr R :=
  .seq e (.many e)

def blank : Expr R :=
  oneOf [' ', '\t', '\r', '\n']

def blanks : Expr R :=
  .many blank

/-- One after the other, with any blanks between them. -/
def loosely (e f : Expr R) : Expr R :=
  .seq e (.seq blanks f)

/-- Any number of times, with any blanks between. -/
def manyLoosely (e : Expr R) : Expr R :=
  opt (.seq e (.many (.seq blanks e)))

end Expr

open TreeQuery.Grammar.Expr

variable {g : Rules R} {e f : Expr R} {cs rest : List Char} {ts : List (ParseTree R)}

theorem computes_any : Computes g any (readChar fun _ => true) :=
  computes_char _

theorem computes_sign (c : Char) : Computes g (sign c) (readChar (· == c)) :=
  computes_char _

/-- One of two kinds of characters. -/
theorem computes_either {p q : Char → Bool} (he : Computes g e (readChar p))
    (hf : Computes g f (readChar q)) :
    Computes g (.choice e f) (readChar fun c => p c || q c) := by
  apply (he.choice hf).congr
  intro cs
  cases cs with
  | nil => rfl
  | cons c cs => cases hp : p c <;> simp [readChoice, readChar, hp]

/-- A character of no such kind. -/
theorem computes_other {p : Char → Bool} (he : Computes g e (readChar p)) :
    Computes g (.seq (.not e) any) (readChar fun c => !p c) := by
  apply (he.not.seq computes_any).congr
  intro cs
  cases cs with
  | nil => rfl
  | cons c cs => cases hp : p c <;> simp [readSeq, readNot, readChar, hp]

theorem computes_run {p : Char → Bool} (he : Computes g e (readChar p)) :
    Computes g (.many e) fun cs => some ([], cs.dropWhile p) := by
  apply he.many (m := fun cs => ([], cs.dropWhile p))
  · intro cs h
    cases cs with
    | nil => rfl
    | cons c cs =>
      cases hp : p c with
      | true => simp [readChar, hp] at h
      | false => simp [hp]
  · intro cs ts mid h
    cases cs with
    | nil => simp [readChar] at h
    | cons c cs =>
      cases hp : p c with
      | true =>
        simp only [readChar, hp, ↓reduceIte, Option.some.injEq, Prod.mk.injEq] at h
        obtain ⟨ht, hm⟩ := h
        subst ts mid
        simp [hp]
      | false => simp [readChar, hp] at h

/-- A character of one kind and all that follow of another. -/
def run? (p q : Char → Bool) : List Char → Option (String × List Char)
  | c :: cs => if p c then some (.ofList (c :: cs.takeWhile q), cs.dropWhile q) else none
  | [] => none

/-- Begins with one kind of character and goes on with another. -/
def IsRun (p q : Char → Bool) (s : String) : Prop :=
  ∃ c cs, s.toList = c :: cs ∧ p c = true ∧ ∀ d ∈ cs, q d = true

theorem isRun_self {p : Char → Bool} {s : String} :
    IsRun p p s ↔ s.toList ≠ [] ∧ ∀ c ∈ s.toList, p c = true := by
  constructor
  · intro ⟨c, cs, hs, hc, hcs⟩
    rw [hs]
    exact ⟨List.cons_ne_nil c cs, List.forall_mem_cons.mpr ⟨hc, hcs⟩⟩
  · intro ⟨hne, hall⟩
    obtain ⟨c, cs, hs⟩ := List.exists_cons_of_ne_nil hne
    rw [hs] at hall
    exact ⟨c, cs, hs, List.forall_mem_cons.mp hall⟩

/-- A run goes on as long as it can. -/
theorem run?_eq_some {p q : Char → Bool} {s : String} : run? p q cs = some (s, rest) ↔
    IsRun p q s ∧ cs = s.toList ++ rest ∧ ∀ c ∈ rest.head?, q c = false := by
  constructor
  · intro h
    cases cs with
    | nil => cases h
    | cons c cs =>
      by_cases hc : p c = true
      · simp only [run?, hc, ↓reduceIte, Option.some.injEq, Prod.mk.injEq] at h
        obtain ⟨hs, hr⟩ := h
        subst s rest
        refine ⟨⟨c, _, String.toList_ofList, hc, ?_⟩, ?_, fun d => head_dropWhile⟩
        · exact List.all_eq_true.mp List.all_takeWhile
        · simp
      · simp [run?, hc] at h
  · intro ⟨⟨c, cs', hs, hc, hcs'⟩, hcs, hrest⟩
    have he : s = String.ofList (c :: cs') := by rw [← hs, String.ofList_toList]
    subst cs
    rw [hs, List.cons_append, run?, if_pos hc, takeWhile_run hcs' hrest, dropWhile_run hcs' hrest,
      he]

/-- The rule takes a run and gives no parts. -/
abbrev TakesRun (g : Rules R) (r : R) (p q : Char → Bool) : Prop :=
  Computes g (.rule r) fun cs => (run? p q cs).map fun x => ([.node r x.1 []], x.2)

theorem TakesRun.parses_iff {r : R} {p q : Char → Bool} (h : TakesRun g r p q) :
    Parses g (.rule r) cs (some (ts, rest)) ↔ ∃ s, ts = [.node r s []] ∧ IsRun p q s ∧
      cs = s.toList ++ rest ∧ ∀ c ∈ rest.head?, q c = false := by
  constructor
  · intro hp
    cases hread : run? p q cs with
    | none => cases hp.unique (h.parses (congrArg _ hread))
    | some x =>
      cases hp.unique (h.parses (congrArg _ hread))
      exact ⟨x.1, rfl, run?_eq_some.mp hread⟩
  · intro ⟨s, ht, hs⟩
    subst ts
    exact h.parses (by rw [run?_eq_some.mpr hs]; rfl)

theorem computes_runBody {p q : Char → Bool} (he : Computes g e (readChar p))
    (hf : Computes g f (readChar q)) :
    Computes g (.seq e (.many f)) fun cs => (run? p q cs).map fun x => ([], x.2) := by
  apply (he.seq (computes_run hf)).congr
  intro cs
  cases cs with
  | nil => rfl
  | cons c cs => cases hp : p c <;> simp [readSeq, readChar, run?, hp]

theorem takesRun_of_body {r : R} {p q : Char → Bool} (hr : g r = ⟨.token, e⟩)
    (he : Computes g e fun cs => (run? p q cs).map fun x => ([], x.2)) : TakesRun g r p q := by
  have hbody : Computes g (g r).body fun cs => (run? p q cs).map fun x => ([], x.2) := by
    rw [hr]
    exact he
  apply hbody.rule.congr
  intro cs
  cases h : run? p q cs with
  | none => simp [readRule, h]
  | some x =>
    have htaken : taken cs x.2 = x.1 := by
      rw [(run?_eq_some.mp h).2.1, taken_append, String.ofList_toList]
    simp [readRule, h, hr, Kind.trees, htaken]

theorem takesRun {r : R} {p q : Char → Bool} (hr : g r = ⟨.token, .seq e (.many f)⟩)
    (he : Computes g e (readChar p)) (hf : Computes g f (readChar q)) : TakesRun g r p q :=
  takesRun_of_body hr (computes_runBody he hf)

theorem contains_blank : [' ', '\t', '\r', '\n'].contains = isBlank := by
  funext c
  simp [isBlank, Bool.or_assoc]

theorem computes_blank : Computes g blank (readChar isBlank) := by
  rw [← contains_blank]
  exact computes_char _

theorem computes_blanks : Computes g blanks fun cs => some ([], skipBlanks cs) := by
  exact (computes_run computes_blank).congr fun _ => rfl

theorem parses_sign {c : Char} :
    Parses g (sign c) cs (some (ts, rest)) ↔ ts = [] ∧ cs = c :: rest := by
  constructor
  · intro h
    cases h with
    | char hc => exact ⟨rfl, by rw [beq_iff_eq.mp hc]⟩
  · intro ⟨ht, hcs⟩
    subst ts cs
    exact .char (beq_self_eq_true c)

/-- Blanks in front of an expression are passed over. -/
theorem parses_blanks {o : Outcome R} :
    Parses g (.seq blanks e) cs o ↔ Parses g e (skipBlanks cs) o := by
  constructor
  · intro h
    cases h with
    | seq hb he =>
      cases hb.unique (computes_blanks cs)
      exact he
    | seqFirst hb => cases hb.unique (computes_blanks cs)
    | seqSecond hb he =>
      cases hb.unique (computes_blanks cs)
      exact he
  · intro h
    have hb : Parses g blanks cs _ := computes_blanks cs
    cases o with
    | none => exact .seqSecond hb h
    | some x => exact .seq hb h

theorem parses_loosely : Parses g (loosely e f) cs (some (ts, rest)) ↔ ∃ us mid vs,
    Parses g e cs (some (us, mid)) ∧ Parses g f (skipBlanks mid) (some (vs, rest)) ∧
      ts = us ++ vs := by
  rw [loosely, parses_seq]
  simp only [parses_blanks]

/-- Nothing is left. -/
theorem parses_end :
    Parses g (.not any) cs (some (ts, rest)) ↔ ts = [] ∧ cs = [] ∧ rest = [] := by
  constructor
  · intro h
    cases h with
    | notMissing hany =>
      cases cs with
      | nil => exact ⟨rfl, rfl, rfl⟩
      | cons c cs => cases hany.unique (.char rfl)
  · intro ⟨ht, hcs, hrest⟩
    subst ts cs rest
    exact .notMissing .charEnd

theorem parses_signLoosely {c : Char} : Parses g (loosely (sign c) e) cs (some (ts, rest)) ↔
    ∃ inner, cs = c :: inner ∧ Parses g e (skipBlanks inner) (some (ts, rest)) := by
  rw [parses_loosely]
  constructor
  · intro ⟨us, inner, vs, hc, he, ht⟩
    obtain ⟨hus, hcs⟩ := parses_sign.mp hc
    subst us ts
    exact ⟨inner, hcs, he⟩
  · intro ⟨inner, hcs, he⟩
    exact ⟨[], inner, ts, parses_sign.mpr ⟨rfl, hcs⟩, he, rfl⟩

theorem TakesRun.parses_loosely {r : R} {p q : Char → Bool} (h : TakesRun g r p q) :
    Parses g (loosely (.rule r) e) cs (some (ts, rest)) ↔ ∃ s mid vs, ts = .node r s [] :: vs ∧
      IsRun p q s ∧ cs = s.toList ++ mid ∧ (∀ c ∈ mid.head?, q c = false) ∧
        Parses g e (skipBlanks mid) (some (vs, rest)) := by
  rw [Grammar.parses_loosely]
  constructor
  · intro ⟨us, mid, vs, hr, he, ht⟩
    obtain ⟨s, hus, hs, hcs, hmid⟩ := h.parses_iff.mp hr
    subst us
    exact ⟨s, mid, vs, ht, hs, hcs, hmid, he⟩
  · intro ⟨s, mid, vs, ht, hs, hcs, hmid, he⟩
    exact ⟨_, mid, vs, h.parses_iff.mpr ⟨s, rfl, hs, hcs, hmid⟩, he, ht⟩

theorem sign_fails {c : Char} (h : cs.head? ≠ some c) : Parses g (sign c) cs none := by
  cases cs with
  | nil => exact .charEnd
  | cons d cs =>
    apply Parses.charOther
    simpa using h

/-- A rule that begins with a sign. -/
theorem rule_fails {r : R} {c : Char} (hr : (g r).body = loosely (sign c) e)
    (h : cs.head? ≠ some c) : Parses g (.rule r) cs none := by
  apply Parses.ruleFails
  rw [hr]
  exact .seqFirst (sign_fails h)

/-- What holds of no turn and is kept by one more turn, and by blanks, in front. No turn has more
text before it than the repetition. -/
theorem Parses.manyLoosely_induction {motive : List Char → List (ParseTree R) → List Char → Prop}
    (h : Parses g (manyLoosely e) cs (some (ts, rest))) (done : ∀ ds, motive ds [] ds)
    (blanks : ∀ ds ts rest, motive (skipBlanks ds) ts rest → motive ds ts rest)
    (more : ∀ ds us mid ts rest, ds.length ≤ cs.length → Parses g e ds (some (us, mid)) →
      motive mid ts rest → motive ds (us ++ ts) rest) : motive cs ts rest := by
  rcases parses_choice.mp h with hsome | ⟨_, hnone⟩
  · obtain ⟨us, mid, vs, hfirst, hmore, ht⟩ := parses_seq.mp hsome
    subst ts
    have hturns : mid.length ≤ cs.length → motive mid vs rest := by
      apply hmore.many_induction (motive := fun ds ts rest =>
        ds.length ≤ cs.length → motive ds ts rest)
      · intro ds _ _
        exact done ds
      · intro ds us mid ts rest hturn ih hds
        have hskip := length_skipBlanks_le ds
        have hle := hturn.length_le
        exact blanks _ _ _ (more _ _ _ _ _ (by omega) (parses_blanks.mp hturn) (ih (by omega)))
    exact more _ _ _ _ _ (Nat.le_refl _) hfirst (hturns hfirst.length_le)
  · cases hnone
    exact done _

section Takes

variable {τ : Type} {before mid after read : List τ → List Char → Prop}

/-- The expression takes a text that begins with the parts, and leaves what can be read as whatever
parts may follow. -/
def Takes (g : Rules R) (before after : List τ → List Char → Prop) (e : Expr R) (ps : List τ)
    (follow : List τ → Prop) : Prop :=
  ∀ cs more, follow more → before (ps ++ more) cs →
    ∃ ts rest, Parses g e (skipBlanks cs) (some (ts, rest)) ∧ after more rest

/-- The expression fails on a text that begins with the parts, whatever may follow. -/
def Fails (g : Rules R) (before : List τ → List Char → Prop) (e : Expr R) (ps : List τ)
    (follow : List τ → Prop) : Prop :=
  ∀ cs more, follow more → before (ps ++ more) cs → Parses g e (skipBlanks cs) none

section Steps

variable {ps qs : List τ} {follow follow' : List τ → Prop}

theorem Takes.loosely (he : Takes g before mid e ps follow) (hf : Takes g mid after f qs follow')
    (h : ∀ more, follow' more → follow (qs ++ more)) :
    Takes g before after (loosely e f) (ps ++ qs) follow' := by
  intro cs more hmore hcs
  rw [List.append_assoc] at hcs
  obtain ⟨us, left, hus, hleft⟩ := he cs _ (h more hmore) hcs
  obtain ⟨vs, rest, hvs, hrest⟩ := hf left more hmore hleft
  exact ⟨_, rest, parses_loosely.mpr ⟨us, left, vs, hus, hvs, rfl⟩, hrest⟩

theorem Takes.rule {r : R} (h : Takes g before after (g r).body ps follow) :
    Takes g before after (.rule r) ps follow := by
  intro cs more hmore hcs
  obtain ⟨us, rest, hus, hrest⟩ := h cs more hmore hcs
  exact ⟨_, rest, .rule hus, hrest⟩

theorem Takes.choiceFirst (h : Takes g before after e ps follow) :
    Takes g before after (.choice e f) ps follow := by
  intro cs more hmore hcs
  obtain ⟨us, rest, hus, hrest⟩ := h cs more hmore hcs
  exact ⟨us, rest, .choiceFirst hus, hrest⟩

theorem Takes.choiceSecond (he : Fails g before e ps follow)
    (h : Takes g before after f ps follow) :
    Takes g before after (.choice e f) ps follow := by
  intro cs more hmore hcs
  obtain ⟨us, rest, hus, hrest⟩ := h cs more hmore hcs
  exact ⟨us, rest, .choiceSecond (he cs more hmore hcs) hus, hrest⟩

theorem Fails.rule {r : R} (h : Fails g before (g r).body ps follow) :
    Fails g before (.rule r) ps follow :=
  fun cs more hmore hcs => .ruleFails (h cs more hmore hcs)

theorem Fails.loosely (h : Fails g before e ps follow) :
    Fails g before (loosely e f) ps follow :=
  fun cs more hmore hcs => .seqFirst (h cs more hmore hcs)

theorem Takes.fails_loosely (he : Takes g before mid e ps follow) (hf : Fails g mid f qs follow')
    (h : ∀ more, follow' more → follow (qs ++ more)) :
    Fails g before (Expr.loosely e f) (ps ++ qs) follow' := by
  intro cs more hmore hcs
  rw [List.append_assoc] at hcs
  obtain ⟨us, left, hus, hleft⟩ := he cs _ (h more hmore) hcs
  exact .seqSecond hus (parses_blanks.mpr (hf left more hmore hleft))

end Steps

variable {α : Type} {parts : α → List τ} {follow : List τ → Prop} {more : List τ}

theorem takes_many {as : List α} (htakes : ∀ a ∈ as, Takes g read read e (parts a) follow)
    (hfollow : ∀ bs, bs <:+ as → follow (bs.flatMap parts ++ more))
    (hfails : ∀ cs, read more cs → Parses g e (skipBlanks cs) none)
    (h : read (as.flatMap parts ++ more) cs) :
    ∃ ts rest, Parses g (.many (.seq blanks e)) cs (some (ts, rest)) ∧ read more rest := by
  -- What follows is left because the expression fails there: a repetition takes all that it can.
  induction as generalizing cs with
  | nil => exact ⟨[], cs, .manyDone (parses_blanks.mpr (hfails cs h)), h⟩
  | cons a as ih =>
    rw [List.flatMap_cons, List.append_assoc] at h
    obtain ⟨us, mid, hfirst, hmid⟩ := htakes a (by simp) cs _
      (hfollow as (List.suffix_cons a as)) h
    obtain ⟨vs, rest, hmore, hrest⟩ := ih (fun b hb => htakes b (by simp [hb]))
      (fun bs hbs => hfollow bs (hbs.trans (List.suffix_cons a as))) hmid
    exact ⟨us ++ vs, rest, .manyMore (parses_blanks.mpr hfirst) hmore, hrest⟩

theorem takes_manyLoosely {as : List α} (htakes : ∀ a ∈ as, Takes g read read e (parts a) follow)
    (hfollow : ∀ bs, bs <:+ as → follow (bs.flatMap parts ++ more))
    (hfails : ∀ cs, read more cs → Parses g e (skipBlanks cs) none)
    (hskip : ∀ cs, read more cs → read more (skipBlanks cs))
    (h : read (as.flatMap parts ++ more) cs) :
    ∃ ts rest, Parses g (manyLoosely e) (skipBlanks cs) (some (ts, rest)) ∧ read more rest := by
  cases as with
  | nil => exact ⟨[], skipBlanks cs, .choiceSecond (.seqFirst (hfails cs h)) .empty, hskip cs h⟩
  | cons a as =>
    rw [List.flatMap_cons, List.append_assoc] at h
    obtain ⟨us, mid, hfirst, hmid⟩ := htakes a (by simp) cs _
      (hfollow as (List.suffix_cons a as)) h
    obtain ⟨vs, rest, hmore, hrest⟩ := takes_many (fun b hb => htakes b (by simp [hb]))
      (fun bs hbs => hfollow bs (hbs.trans (List.suffix_cons a as))) hfails hmid
    exact ⟨us ++ vs, rest, .choiceFirst (.seq hfirst hmore), hrest⟩

end Takes

end TreeQuery.Grammar
