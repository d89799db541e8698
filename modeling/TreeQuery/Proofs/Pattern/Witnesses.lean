import TreeQuery.Proofs.Pattern.Meaning
import TreeQuery.Proofs.Pattern.Scopes
import TreeQuery.Regex.Engine
import TreeQuery.Unicode.Version15

namespace TreeQuery

namespace Pattern

variable [RegexEngine]

mutual

/-- Nothing is captured inside a negation, an alternative, an option or an operand that does not
have to be satisfied by some one node. -/
def Exposed : Pattern → Prop
  | node _ cs => ExposedAll cs
  | related op p => if op.isRelational then p.Exposed else p.captures = []
  | not p => p.captures = []
  | or p q => p.captures = [] ∧ q.captures = []
  | group p => p.Exposed
  | all cs => ExposedAll cs
  | optional p => p.captures = []
  | capture p _ => p.Exposed

def ExposedAll : List Pattern → Prop
  | [] => True
  | c :: cs => c.Exposed ∧ ExposedAll cs

end

/-- Captures that a match has to make, each once and before it is referred to. -/
structure WellScoped (p : Pattern) : Prop where
  nodup : p.captures.Nodup
  inOrder : Mention.InOrder [] p.mentions
  exposed : p.Exposed
  supported : p.Supported

end Pattern

/-- The anchor holds at the node, and its variables are bound to it. -/
def Anchor.Witnessed [RegexEngine] (t : Tree) (s : Bindings) (id : NodeId) (a : Anchor) : Prop :=
  a.Holds t s id ∧ ∀ v, .capture v ∈ a.mentions → s.lookup? v = some id

namespace Pattern

variable [RegexEngine]

mutual

/-- There are nodes for the parts of the pattern, `id` being the one for the whole, that stand in
the relations of its operators and satisfy its anchors; what is captured is bound to its node. Parts
that may not capture are only asked whether they hold. -/
def Witnessed (t : Tree) (s : Bindings) : Pattern → NodeId → Prop
  | node a cs, id => a.Witnessed t s id ∧ WitnessedAll t s cs id
  | related op p, id =>
    if op.isRelational then ∃ m, op.Leads t id m ∧ Witnessed t s p m
    else ((related op p).test t id s).answer = .ok true
  | not p, id => ((not p).test t id s).answer = .ok true
  | or p q, id => ((or p q).test t id s).answer = .ok true
  | group p, id => Witnessed t s p id
  | all cs, id => WitnessedAll t s cs id
  | optional p, id => ((optional p).test t id s).answer = .ok true
  | capture p var, id => Witnessed t s p id ∧ s.lookup? var = some id

def WitnessedAll (t : Tree) (s : Bindings) : List Pattern → NodeId → Prop
  | [], _ => True
  | c :: cs, id => Witnessed t s c id ∧ WitnessedAll t s cs id

end

end Pattern

open Bindings

theorem Bindings.AgreeOn.trans {vs : List String} {s₁ s₂ s₃ : Bindings} (h : AgreeOn vs s₁ s₂)
    (h' : AgreeOn vs s₂ s₃) : AgreeOn vs s₁ s₃ :=
  fun v hv => (h v hv).trans (h' v hv)

namespace Test

/-- A test leaves the variables alone that it does not bind. -/
theorem Local.agreeOn {refs caps vs : List String} {a : Test} (ha : a.Local refs caps)
    (hd : ∀ v ∈ vs, v ∉ caps) (s : Bindings) : AgreeOn vs s (a s).bindings := by
  obtain ⟨ws, hws, h⟩ := ha.exists_overwrite s
  intro v hv
  have hne : ∀ w ∈ ws, w.1 ≠ v := fun w hw he => hd v hv (he ▸ hws w hw)
  rw [h, lookup_overwrite_of_not_mem hne]

/-- With the variables `seen` bound to nodes the test ends without an error. If the answer is yes,
those of `caps` are bound as well, and `W` is true from then on, for as long as they all stay bound
to the same nodes. -/
def Secures (t : Tree) (seen caps : List String) (W : Bindings → Prop) (a : Test) : Prop :=
  ∀ s, Has t seen s → ∃ x, (a s).answer = .ok x ∧ Has t seen (a s).bindings ∧
    (x = true → Has t caps (a s).bindings ∧ ∀ f, AgreeOn (seen ++ caps) (a s).bindings f → W f)

variable {t : Tree} {seen caps caps' refs : List String} {W V : Bindings → Prop} {a b : Test}

theorem Secures.congr (ha : a.Secures t seen caps W) (hw : ∀ f, W f → V f) :
    a.Secures t seen caps V := by
  intro s hs
  obtain ⟨x, hx, hkeep, hyes⟩ := ha s hs
  refine ⟨x, hx, hkeep, fun ht => ⟨(hyes ht).1, fun f hf => hw f ?_⟩⟩
  exact (hyes ht).2 f hf

/-- A test that binds nothing gives the same answer later. -/
theorem Steady.secures (ha : a.Steady t seen) (hl : a.Local refs []) (hr : refs ⊆ seen) :
    a.Secures t seen [] fun f => (a f).answer = .ok true := by
  intro s hs
  obtain ⟨⟨x, hx⟩, hkeep⟩ := ha s hs
  refine ⟨x, hx, hkeep, fun ht => ⟨fun _ hv => absurd hv List.not_mem_nil, fun f hf => ?_⟩⟩
  rw [hl.bindings_eq, List.append_nil] at hf
  obtain ⟨o, _, _, hs', hf'⟩ := hl s f (hf.mono hr)
  rw [hf']
  rw [hs'] at hx
  exact hx.trans (congrArg _ ht)

theorem Secures.both (ha : a.Secures t seen caps W) (hb : b.Secures t (seen ++ caps) caps' V)
    (hl : b.Local refs caps') (hn : (seen ++ caps ++ caps').Nodup) :
    (both a b).Secures t seen (caps ++ caps') fun f => W f ∧ V f := by
  intro s hs
  obtain ⟨x, hx, hkeep, hyes⟩ := ha s hs
  cases x with
  | false =>
    rw [both_of_not_true (by simp [hx])]
    exact ⟨false, hx, hkeep, fun h => absurd h Bool.false_ne_true⟩
  | true =>
    obtain ⟨hcaps, hw⟩ := hyes rfl
    obtain ⟨y, hy, hkeep', hyes'⟩ := hb _ (hkeep.append hcaps)
    rw [both_of_true hx]
    refine ⟨y, hy, hkeep'.mono (List.subset_append_left _ _), fun ht => ⟨?_, fun f hf => ⟨?_, ?_⟩⟩⟩
    · exact (hkeep'.mono (List.subset_append_right _ _)).append (hyes' ht).1
    · have hd : ∀ v ∈ seen ++ caps, v ∉ caps' := fun v hv hv' =>
        (List.nodup_append.mp hn).2.2 v hv v hv' rfl
      rw [← List.append_assoc] at hf
      exact hw f ((hl.agreeOn hd _).trans (hf.mono (List.subset_append_left _ _)))
    · rw [← List.append_assoc] at hf
      exact (hyes' ht).2 f hf

/-- The bindings of the candidates that fail are bound anew by the one that succeeds. -/
theorem secures_any {α : Type} {f : α → Test} {W : α → Bindings → Prop} {ids : List α}
    (h : ∀ m ∈ ids, (f m).Secures t seen caps (W m)) :
    (any (ids.map f)).Secures t seen caps fun s => ∃ m ∈ ids, W m s := by
  induction ids with
  | nil => exact fun s hs => ⟨false, rfl, hs, fun h => absurd h Bool.false_ne_true⟩
  | cons m ids ih =>
    obtain ⟨hm, hids⟩ := List.forall_mem_cons.mp h
    intro s hs
    obtain ⟨x, hx, hkeep, hyes⟩ := hm s hs
    rw [List.map_cons, any_cons]
    cases x with
    | false =>
      obtain ⟨y, hy, hkeep', hyes'⟩ := ih hids _ hkeep
      rw [either_of_false hx]
      refine ⟨y, hy, hkeep', fun ht => ⟨(hyes' ht).1, fun g hg => ?_⟩⟩
      obtain ⟨k, hk, hw⟩ := (hyes' ht).2 g hg
      exact ⟨k, List.mem_cons_of_mem _ hk, hw⟩
    | true =>
      rw [either_of_not_false (by simp [hx])]
      refine ⟨true, hx, hkeep, fun _ => ⟨(hyes rfl).1, fun g hg => ?_⟩⟩
      exact ⟨m, List.mem_cons_self, (hyes rfl).2 g hg⟩

theorem Secures.capture (ha : a.Secures t seen caps W) {var : String} {id : NodeId}
    (hid : id < t.size) (hn : (seen ++ caps ++ [var]).Nodup) :
    (capture a var id).Secures t seen (caps ++ [var]) fun f => W f ∧ f.lookup? var = some id := by
  have hlook : ∀ s : Bindings, (s.bind var id).lookup? var = some id :=
    fun s => by rw [lookup_bind, if_pos rfl]
  have hb : Secures t (seen ++ caps) [var] (fun f => f.lookup? var = some id)
      fun s => ⟨.ok true, s.bind var id⟩ := by
    intro s hs
    refine ⟨true, rfl, hs.bind var hid, fun _ => ⟨has_bind_self s var hid, fun f hf => ?_⟩⟩
    exact (hf var (List.mem_append_right _ List.mem_cons_self)).symm.trans (hlook s)
  have hl : Local [] [var] fun s => ⟨.ok true, s.bind var id⟩ := local_bind List.mem_cons_self id
  rw [capture_eq]
  exact ha.both hb hl hn

/-- What is decided without bindings and binds nothing stays as it was found. -/
theorem Decides.secures (ha : a.Decides W) (hl : a.Local seen []) : a.Secures t seen [] W := by
  obtain ⟨x, hx⟩ := ha
  intro s hs
  refine ⟨x, (hx s).1, by rwa [hl.bindings_eq], fun ht => ⟨?_, fun f _ => (hx f).2.mp ht⟩⟩
  exact fun _ hv => absurd hv List.not_mem_nil

/-- What is found out about the node of a variable stays true while the variable keeps it. -/
theorem secures_of_lookup {var : String} (hv : var ∈ seen) {g : Node → Bool} {P : Node → Prop}
    (ha : ∀ {s k m}, s.lookup? var = some k → t.get? k = some m → a s = ⟨.ok (g m), s⟩)
    (hg : ∀ m, g m = true → P m) :
    a.Secures t seen [] fun f => ∃ k m, f.lookup? var = some k ∧ t.get? k = some m ∧ P m := by
  intro s hs
  obtain ⟨k, m, hk, hm⟩ := hs var hv
  rw [ha hk hm]
  refine ⟨g m, rfl, hs, fun ht => ⟨fun _ hv => absurd hv List.not_mem_nil, fun f hf => ?_⟩⟩
  rw [List.append_nil] at hf
  exact ⟨k, m, (hf var hv).symm.trans hk, hm, hg m ht⟩

end Test

theorem Anchor.testNode_secures [RegexEngine] {t : Tree} {id : NodeId} (hid : id < t.size)
    {n : Node} {a : Anchor} {seen : List String} (hs : Mention.Scoped seen a.mentions) :
    (a.testNode t n id).Secures t seen (a.mentions.filterMap Mention.captured?) fun f =>
      a.HoldsOf t f n ∧ ∀ v, .capture v ∈ a.mentions → f.lookup? v = some id := by
  induction a with
  | sameAs var =>
    have hv : var ∈ seen := hs.inOrder.1
    refine (Test.secures_of_lookup hv (fun hk hm => sameAsTest_of_lookup hk hm) ?_).congr
      fun f hf => ⟨hf, by simp [mentions]⟩
    exact fun m => Mark.agrees_iff.mp
  | differentFrom var =>
    have hv : var ∈ seen := hs.inOrder.1
    have ha : ∀ {s k m}, s.lookup? var = some k → t.get? k = some m →
        Test.not (sameAsTest t n var) s = ⟨.ok !m.agrees n.toMark, s⟩ := by
      intro s k m hk hm
      rw [Test.not_eq, sameAsTest_of_lookup hk hm]
      rfl
    refine (Test.secures_of_lookup hv ha ?_).congr fun f hf => ⟨hf, by simp [mentions]⟩
    intro m hm hsame
    rw [Mark.agrees_iff.mpr hsame] at hm
    cases hm
  | capture anchor var ih =>
    have hn := hs.nodup
    rw [mentions, List.filterMap_append, ← List.append_assoc] at hn
    rw [mentions, List.filterMap_append]
    refine ((ih hs.left).capture hid hn).congr fun f hf => ⟨hf.1.1, ?_⟩
    intro v hv
    rcases List.mem_append.mp hv with hv | hv
    · exact hf.1.2 v hv
    · cases List.mem_singleton.mp hv
      exact hf.2
  | _ =>
    refine ((testNode_decides ?_).secures (testNode_local ?_ ?_)).congr
      fun f hf => ⟨hf, by simp [mentions]⟩ <;> simp [mentions]

theorem Anchor.test_secures [RegexEngine] {t : Tree} {id : NodeId} (hid : id < t.size) {a : Anchor}
    {seen : List String} (hs : Mention.Scoped seen a.mentions) :
    (a.test t id).Secures t seen (a.mentions.filterMap Mention.captured?) fun f =>
      a.Witnessed t f id := by
  obtain ⟨n, hn⟩ := Tree.lt_size_iff.mp hid
  rw [test_of_get hn]
  exact (testNode_secures hid hs).congr fun f hf => ⟨⟨n, hn, hf.1⟩, hf.2⟩

namespace Pattern

section

variable [RegexEngine]

/-- A pattern that captures nothing keeps its answer. -/
theorem test_secures_of_closed {t : Tree} (h : t.WellFormed) {id : NodeId} (hid : id < t.size)
    {p : Pattern} {seen : List String} (hsc : Mention.Scoped seen p.mentions)
    (hc : p.captures = []) (hs : p.Supported) :
    (p.test t id).Secures t seen p.captures fun f => (p.test t id f).answer = .ok true := by
  have hr : p.references ⊆ seen := by
    have hsub : p.references ⊆ seen ++ p.captures := hsc.inOrder.references_subset
    rwa [hc, List.append_nil] at hsub
  have hl := test_local t p id
  rw [hc] at hl ⊢
  exact (test_steady h hid hr hs).secures hl hr

/-- Wherever evaluation of the pattern begins, it secures what the bindings of a match are to
witness. -/
def Secured (t : Tree) (p : Pattern) : Prop :=
  ∀ id < t.size, ∀ seen, Mention.Scoped seen p.mentions → p.Exposed → p.Supported →
    (p.test t id).Secures t seen p.captures fun f => p.Witnessed t f id

theorem secured_all {t : Tree} {cs : List Pattern} (h : ∀ c ∈ cs, c.Secured t) :
    (all cs).Secured t := by
  intro id hid seen hsc he hs
  induction cs generalizing seen with
  | nil =>
    exact (Test.decides_answer (by simp [Witnessed, WitnessedAll])).secures
      (Test.local_answer true)
  | cons c cs ih =>
    have hm : (all (c :: cs)).mentions = c.mentions ++ (all cs).mentions := rfl
    have hc : (all (c :: cs)).captures = c.captures ++ (all cs).captures := by
      rw [captures, hm, List.filterMap_append]
      rfl
    have hn := hsc.nodup
    rw [hm] at hsc
    rw [← captures, hc, ← List.append_assoc] at hn
    rw [hc]
    obtain ⟨hfirst, hrest⟩ := List.forall_mem_cons.mp h
    have hsup : (all cs).Supported :=
      ⟨fun h => hs.1 (List.mem_append_right _ h), fun h => hs.2 (List.mem_append_right _ h)⟩
    exact (hfirst id hid seen hsc.left he.1 (hs.part (.member List.mem_cons_self))).both
      (ih hrest _ hsc.right he.2 hsup) (test_local t (all cs) id) hn

theorem secured {t : Tree} (h : t.WellFormed) (p : Pattern) : p.Secured t := by
  induction p with
  | node a cs ih =>
    intro id hid seen hsc he hs
    have hm : (node a cs).mentions = a.mentions ++ (all cs).mentions := rfl
    have hc : (node a cs).captures =
        a.mentions.filterMap Mention.captured? ++ (all cs).captures := by
      rw [captures, hm, List.filterMap_append]
      rfl
    have hn := hsc.nodup
    rw [hm] at hsc
    rw [← captures, hc, ← List.append_assoc] at hn
    rw [hc]
    exact (Anchor.test_secures hid hsc.left).both (secured_all ih id hid _ hsc.right he hs)
      (test_local t (all cs) id) hn
  | related op p ih =>
    intro id hid seen hsc he hs
    cases hrel : op.isRelational with
    | true =>
      rw [Exposed, if_pos hrel] at he
      have hsome : ∀ m ∈ op.targets t id,
          (p.test t m).Secures t seen p.captures fun f => p.Witnessed t f m :=
        fun m hm => ih m (Operator.targets_lt h.linked hid hm) seen hsc he (hs.part .operand)
      simp only [Witnessed, if_pos hrel, test, Operator.test_eq_targets h.linked hid hrel]
      refine (Test.secures_any hsome).congr fun f hf => ?_
      obtain ⟨m, hm, hw⟩ := hf
      exact ⟨m, (Operator.mem_targets h).mp hm, hw⟩
    | false =>
      have hno : ¬ op.isRelational = true := by simp [hrel]
      rw [Exposed, if_neg hno] at he
      simp only [Witnessed, if_neg hno]
      exact test_secures_of_closed h hid hsc he hs
  | or p q _ _ =>
    intro id hid seen hsc he hs
    have hc : (or p q).captures = [] := by
      have hm : (or p q).captures = p.captures ++ q.captures := List.filterMap_append
      rw [hm, he.1, he.2]
      rfl
    exact test_secures_of_closed h hid hsc hc hs
  | not p _ | optional p _ =>
    intro id hid seen hsc he hs
    exact test_secures_of_closed h hid hsc he hs
  | group p ih => exact ih
  | all cs ih => exact secured_all ih
  | capture p var ih =>
    intro id hid seen hsc he hs
    have hc : (capture p var).captures = p.captures ++ [var] := List.filterMap_append
    have hn := hsc.nodup
    rw [← captures, hc, ← List.append_assoc] at hn
    rw [hc]
    exact (ih id hid seen hsc.left he (hs.part .captured)).capture hid hn

/-- A pattern whose captures are made before they are referred to is evaluated without an error,
and the bindings of a match witness it: they bind what the pattern captures, and nothing else. -/
theorem matchAt_witnessed {t : Tree} (h : t.WellFormed) {id : NodeId} (hid : id < t.size)
    {p : Pattern} (hp : p.WellScoped) :
    ∃ o, p.matchAt t id = .ok o ∧ ∀ s, o = some s →
      (∀ v, s.contains v = true ↔ v ∈ p.captures) ∧ p.Witnessed t s id := by
  have hsc : Mention.Scoped [] p.mentions := ⟨hp.nodup, hp.inOrder⟩
  have hempty : Has t [] .empty := fun _ hv => absurd hv List.not_mem_nil
  obtain ⟨x, hx, _, hyes⟩ := secured h p id hid [] hsc hp.exposed hp.supported .empty hempty
  obtain ⟨ws, hws, hb⟩ := (test_local t p id).exists_overwrite .empty
  rcases ho : p.test t id .empty with ⟨_, s⟩
  rw [ho] at hx hyes hb
  obtain rfl : _ = Except.ok x := hx
  unfold matchAt
  rw [ho]
  cases x with
  | false => exact ⟨none, rfl, fun s he => by cases he⟩
  | true =>
    obtain ⟨hcaps, hw⟩ := hyes rfl
    refine ⟨some s, rfl, fun f he => ?_⟩
    cases he
    refine ⟨fun v => ⟨fun hv => ?_, fun hv => ?_⟩, hw s fun _ _ => rfl⟩
    · obtain rfl : s = Bindings.empty.overwrite ws := hb
      rcases contains_of_overwrite hv with hv | ⟨w, hw, rfl⟩
      · cases hv
      · exact hws w hw
    · obtain ⟨k, _, hk, _⟩ := hcaps v hv
      rw [contains, hk]
      rfl

end

/-- Some phrase of the sentence, directly below it, is the parent of a verb. The first candidate for
the phrase is bound before it is known to be none. -/
def verbPhrase : Pattern :=
  .node (.label "S")
    [.related .descendant (.node (.capture .any "A") [.related .child (.node (.label "VBD") [])]),
     .not (.related .everyChild (.node (.sameAs "A") [])),
     .capture (.group (.related .child (.node (.sameAs "A") []))) "B"]

theorem matchAt_witnessed_sentence :
    Tree.sentence.WellFormed ∧ 0 < Tree.sentence.size ∧ verbPhrase.WellScoped ∧
      ∃ o, verbPhrase.matchAt Tree.sentence 0 = .ok o ∧ ∀ s, o = some s →
        (∀ v, s.contains v = true ↔ v ∈ verbPhrase.captures) ∧
          verbPhrase.Witnessed Tree.sentence s 0 :=
  have he : verbPhrase.Exposed := by
    simp only [verbPhrase, Exposed, ExposedAll]
    decide
  have hp : verbPhrase.WellScoped := ⟨by decide, by decide, he, by decide⟩
  ⟨Tree.sentence_wellFormed, by decide, hp,
    matchAt_witnessed Tree.sentence_wellFormed (by decide) hp⟩

end Pattern

end TreeQuery
