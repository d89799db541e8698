namespace TreeQuery.Grammar

inductive ParseTree (R : Type)
  | node (rule : R) (text : String) (parts : List (ParseTree R))

def ParseTree.rule {R : Type} : ParseTree R → R
  | node r _ _ => r

def ParseTree.text {R : Type} : ParseTree R → String
  | node _ text _ => text

inductive Expr (R : Type)
  | empty
  | char (p : Char → Bool)
  | seq (e f : Expr R)
  | choice (e f : Expr R)
  | many (e : Expr R)
  /-- Takes nothing, where the expression fails. -/
  | not (e : Expr R)
  | rule (r : R)

/-- What a rule gives: the trees within, a tree without parts, or a tree of those within. -/
inductive Kind
  | silent
  | token
  | tree

structure Definition (R : Type) where
  kind : Kind
  body : Expr R

abbrev Rules (R : Type) := R → Definition R

/-- The trees and the rest of the text, or nothing where the expression fails. -/
abbrev Outcome (R : Type) := Option (List (ParseTree R) × List Char)

variable {R : Type}

def Kind.trees (r : R) (text : String) (parts : List (ParseTree R)) : Kind → List (ParseTree R)
  | silent => parts
  | token => [.node r text []]
  | tree => [.node r text parts]

/-- The text in front of the rest. -/
def taken (cs rest : List Char) : String :=
  String.ofList (cs.take (cs.length - rest.length))

@[simp] theorem taken_append (cs rest : List Char) :
    taken (cs ++ rest) rest = String.ofList cs := by
  simp [taken]

inductive Parses (g : Rules R) : Expr R → List Char → Outcome R → Prop
  | empty {cs} : Parses g .empty cs (some ([], cs))
  | char {p c cs} : p c = true → Parses g (.char p) (c :: cs) (some ([], cs))
  | charEnd {p} : Parses g (.char p) [] none
  | charOther {p c cs} : p c = false → Parses g (.char p) (c :: cs) none
  | seq {e f cs ts mid us rest} : Parses g e cs (some (ts, mid)) →
      Parses g f mid (some (us, rest)) → Parses g (.seq e f) cs (some (ts ++ us, rest))
  | seqFirst {e f cs} : Parses g e cs none → Parses g (.seq e f) cs none
  | seqSecond {e f cs ts mid} : Parses g e cs (some (ts, mid)) → Parses g f mid none →
      Parses g (.seq e f) cs none
  | choiceFirst {e f cs x} : Parses g e cs (some x) → Parses g (.choice e f) cs (some x)
  | choiceSecond {e f cs o} : Parses g e cs none → Parses g f cs o → Parses g (.choice e f) cs o
  | manyDone {e cs} : Parses g e cs none → Parses g (.many e) cs (some ([], cs))
  | manyMore {e cs ts mid us rest} : Parses g e cs (some (ts, mid)) →
      Parses g (.many e) mid (some (us, rest)) → Parses g (.many e) cs (some (ts ++ us, rest))
  | notFound {e cs x} : Parses g e cs (some x) → Parses g (.not e) cs none
  | notMissing {e cs} : Parses g e cs none → Parses g (.not e) cs (some ([], cs))
  | rule {r cs ts rest} : Parses g (g r).body cs (some (ts, rest)) →
      Parses g (.rule r) cs (some ((g r).kind.trees r (taken cs rest) ts, rest))
  | ruleFails {r cs} : Parses g (g r).body cs none → Parses g (.rule r) cs none

variable {g : Rules R} {e f : Expr R} {cs rest : List Char} {ts : List (ParseTree R)}

theorem parses_seq : Parses g (.seq e f) cs (some (ts, rest)) ↔ ∃ us mid vs,
    Parses g e cs (some (us, mid)) ∧ Parses g f mid (some (vs, rest)) ∧ ts = us ++ vs := by
  constructor
  · intro h
    cases h with
    | seq he hf => exact ⟨_, _, _, he, hf, rfl⟩
  · intro ⟨us, mid, vs, he, hf, ht⟩
    subst ts
    exact .seq he hf

theorem parses_choice : Parses g (.choice e f) cs (some (ts, rest)) ↔
    Parses g e cs (some (ts, rest)) ∨
      Parses g e cs none ∧ Parses g f cs (some (ts, rest)) := by
  constructor
  · intro h
    cases h with
    | choiceFirst he => exact .inl he
    | choiceSecond he hf => exact .inr ⟨he, hf⟩
  · intro h
    rcases h with he | ⟨he, hf⟩
    · exact .choiceFirst he
    · exact .choiceSecond he hf

theorem parses_rule {r : R} : Parses g (.rule r) cs (some (ts, rest)) ↔ ∃ us,
    Parses g (g r).body cs (some (us, rest)) ∧ ts = (g r).kind.trees r (taken cs rest) us := by
  constructor
  · intro h
    cases h with
    | rule hbody => exact ⟨_, hbody, rfl⟩
  · intro ⟨us, hbody, ht⟩
    subst ts
    exact .rule hbody

/-- What holds at the end of a repetition and is kept by one more turn before it. -/
theorem Parses.many_induction {motive : List Char → List (ParseTree R) → List Char → Prop}
    (h : Parses g (.many e) cs (some (ts, rest)))
    (done : ∀ cs, Parses g e cs none → motive cs [] cs)
    (more : ∀ cs ts mid us rest, Parses g e cs (some (ts, mid)) → motive mid us rest →
      motive cs (ts ++ us) rest) : motive cs ts rest := by
  generalize hx : (Expr.many e) = x at h
  generalize ho : some (ts, rest) = o at h
  induction h generalizing ts rest with
  | manyDone he =>
    cases hx
    cases ho
    exact done _ he
  | manyMore he _ _ ih =>
    cases hx
    cases ho
    exact more _ _ _ _ _ he (ih rfl rfl)
  | _ => cases hx

/-- Whether the expression takes something wherever it succeeds, if the `taking` rules do. -/
def Expr.takes (taking : R → Bool) : Expr R → Bool
  | char _ => true
  | seq e f => e.takes taking || f.takes taking
  | choice e f => e.takes taking && f.takes taking
  | rule r => taking r
  | empty | many _ | not _ => false

/-- An expression takes from the beginning of the text. -/
theorem Parses.length_of_taking {taking : R → Bool}
    (hrules : ∀ r, taking r = true → (g r).body.takes taking = true)
    (h : Parses g e cs (some (ts, rest))) :
    rest.length ≤ cs.length ∧ (e.takes taking = true → rest.length < cs.length) := by
  generalize ho : some (ts, rest) = o at h
  induction h generalizing ts rest with
  | empty =>
    cases ho
    exact ⟨Nat.le_refl _, fun ht => (by cases ht)⟩
  | char =>
    cases ho
    simp
  | seq _ _ ihe ihf =>
    cases ho
    have he := ihe rfl
    have hf := ihf rfl
    refine ⟨by omega, fun ht => ?_⟩
    rcases Bool.or_eq_true_iff.mp ht with ht | ht
    · have := he.2 ht
      omega
    · have := hf.2 ht
      omega
  | choiceFirst _ ihe =>
    have he := ihe ho
    exact ⟨he.1, fun ht => he.2 (Bool.and_eq_true_iff.mp ht).1⟩
  | choiceSecond _ _ _ ihf =>
    have hf := ihf ho
    exact ⟨hf.1, fun ht => hf.2 (Bool.and_eq_true_iff.mp ht).2⟩
  | manyDone =>
    cases ho
    exact ⟨Nat.le_refl _, fun ht => (by cases ht)⟩
  | manyMore _ _ ihe ihm =>
    cases ho
    have he := ihe rfl
    have hm := ihm rfl
    exact ⟨by omega, fun ht => (by cases ht)⟩
  | notMissing =>
    cases ho
    exact ⟨Nat.le_refl _, fun ht => (by cases ht)⟩
  | rule _ ih =>
    cases ho
    have hbody := ih rfl
    exact ⟨hbody.1, fun ht => hbody.2 (hrules _ ht)⟩
  | charEnd | charOther | seqFirst | seqSecond | notFound | ruleFails => cases ho

theorem Parses.length_le (h : Parses g e cs (some (ts, rest))) : rest.length ≤ cs.length :=
  have hrules (r : R) (hr : (fun _ : R => false) r = true) :
      (g r).body.takes (fun _ : R => false) = true := by cases hr
  (h.length_of_taking hrules).1

theorem Parses.length_lt {taking : R → Bool}
    (hrules : ∀ r, taking r = true → (g r).body.takes taking = true)
    (h : Parses g e cs (some (ts, rest))) (he : e.takes taking = true) :
    rest.length < cs.length :=
  (h.length_of_taking hrules).2 he

/-- A text has at most one outcome. -/
theorem Parses.unique {o o' : Outcome R} (h : Parses g e cs o) (h' : Parses g e cs o') :
    o = o' := by
  induction h generalizing o' with
  | empty =>
    cases h'
    rfl
  | char hc =>
    cases h' with
    | char => rfl
    | charOther hc' => simp [hc] at hc'
  | charEnd =>
    cases h'
    rfl
  | charOther hc =>
    cases h' with
    | char hc' => simp [hc] at hc'
    | charOther => rfl
  | seq _ _ ihe ihf =>
    cases h' with
    | seq he hf =>
      cases ihe he
      cases ihf hf
      rfl
    | seqFirst he => cases ihe he
    | seqSecond he hf =>
      cases ihe he
      cases ihf hf
  | seqFirst _ ihe =>
    cases h' with
    | seq he _ => cases ihe he
    | seqFirst => rfl
    | seqSecond => rfl
  | seqSecond _ _ ihe ihf =>
    cases h' with
    | seq he hf =>
      cases ihe he
      cases ihf hf
    | seqFirst => rfl
    | seqSecond => rfl
  | choiceFirst _ ihe =>
    cases h' with
    | choiceFirst he => exact ihe he
    | choiceSecond he _ => cases ihe he
  | choiceSecond _ _ ihe ihf =>
    cases h' with
    | choiceFirst he => cases ihe he
    | choiceSecond _ hf => exact ihf hf
  | manyDone _ ihe =>
    cases h' with
    | manyDone => rfl
    | manyMore he _ => cases ihe he
  | manyMore _ _ ihe ihm =>
    cases h' with
    | manyDone he => cases ihe he
    | manyMore he hm =>
      cases ihe he
      cases ihm hm
      rfl
  | notFound _ ihe =>
    cases h' with
    | notFound => rfl
    | notMissing he => cases ihe he
  | notMissing _ ihe =>
    cases h' with
    | notFound he => cases ihe he
    | notMissing => rfl
  | rule _ ih =>
    cases h' with
    | rule hbody =>
      cases ih hbody
      rfl
    | ruleFails hbody => cases ih hbody
  | ruleFails _ ih =>
    cases h' with
    | rule hbody => cases ih hbody
    | ruleFails => rfl

/-- The expression has the outcome of the function on each text. -/
def Computes (g : Rules R) (e : Expr R) (read : List Char → Outcome R) : Prop :=
  ∀ cs, Parses g e cs (read cs)

theorem Computes.congr {read read' : List Char → Outcome R} (h : Computes g e read)
    (heq : ∀ cs, read cs = read' cs) : Computes g e read' := by
  intro cs
  rw [← heq]
  exact h cs

/-- By the equation of a result. -/
theorem Computes.parses {read : List Char → Outcome R} (h : Computes g e read) {o : Outcome R}
    (ho : read cs = o) : Parses g e cs o := by
  rw [← ho]
  exact h cs

def readChar (p : Char → Bool) : List Char → Outcome R
  | c :: cs => if p c then some ([], cs) else none
  | [] => none

theorem computes_char (p : Char → Bool) : Computes g (.char p) (readChar p) := by
  intro cs
  cases cs with
  | nil => exact .charEnd
  | cons c cs =>
    cases hc : p c with
    | true => simpa [readChar, hc] using Parses.char hc
    | false => simpa [readChar, hc] using Parses.charOther hc

variable {readE readF : List Char → Outcome R}

def readSeq (readE readF : List Char → Outcome R) (cs : List Char) : Outcome R :=
  (readE cs).bind fun x => (readF x.2).map fun y => (x.1 ++ y.1, y.2)

theorem Computes.seq (he : Computes g e readE) (hf : Computes g f readF) :
    Computes g (.seq e f) (readSeq readE readF) := by
  intro cs
  rw [readSeq]
  cases hE : readE cs with
  | none => exact .seqFirst (he.parses hE)
  | some x =>
    rw [Option.bind_some]
    cases hF : readF x.2 with
    | none => exact .seqSecond (he.parses hE) (hf.parses hF)
    | some y => exact .seq (he.parses hE) (hf.parses hF)

def readChoice (readE readF : List Char → Outcome R) (cs : List Char) : Outcome R :=
  (readE cs).or (readF cs)

theorem Computes.choice (he : Computes g e readE) (hf : Computes g f readF) :
    Computes g (.choice e f) (readChoice readE readF) := by
  intro cs
  rw [readChoice]
  cases hE : readE cs with
  | none => exact .choiceSecond (he.parses hE) (hf cs)
  | some x => exact .choiceFirst (he.parses hE)

def readNot (readE : List Char → Outcome R) (cs : List Char) : Outcome R :=
  if (readE cs).isSome then none else some ([], cs)

theorem Computes.not (he : Computes g e readE) : Computes g (.not e) (readNot readE) := by
  intro cs
  rw [readNot]
  cases hE : readE cs with
  | none => exact .notMissing (he.parses hE)
  | some x => exact .notFound (he.parses hE)

/-- A repetition, by the equations of the function that it computes. Each turn takes something. -/
theorem Computes.many {m : List Char → List (ParseTree R) × List Char}
    (he : Computes g e readE) (hdone : ∀ cs, readE cs = none → m cs = ([], cs))
    (hmore : ∀ cs ts mid, readE cs = some (ts, mid) → mid.length < cs.length ∧
      m cs = (ts ++ (m mid).1, (m mid).2)) :
    Computes g (.many e) fun cs => some (m cs) := by
  intro cs
  induction hn : cs.length using Nat.strongRecOn generalizing cs with
  | _ n ih =>
    subst hn
    cases hE : readE cs with
    | none =>
      simp only [hdone cs hE]
      exact .manyDone (he.parses hE)
    | some x =>
      obtain ⟨ts, mid⟩ := x
      obtain ⟨hlt, hm⟩ := hmore cs ts mid hE
      simp only [hm]
      exact .manyMore (he.parses hE) (ih _ hlt mid rfl)

def readRule (d : Definition R) (r : R) (read : List Char → Outcome R) (cs : List Char) :
    Outcome R :=
  (read cs).map fun x => (d.kind.trees r (taken cs x.2) x.1, x.2)

theorem Computes.rule {r : R} {read : List Char → Outcome R} (h : Computes g (g r).body read) :
    Computes g (.rule r) (readRule (g r) r read) := by
  intro cs
  rw [readRule]
  cases hread : read cs with
  | none => exact .ruleFails (h.parses hread)
  | some x => exact .rule (h.parses hread)

end TreeQuery.Grammar
