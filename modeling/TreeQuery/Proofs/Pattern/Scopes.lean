import TreeQuery.Proofs.Pattern.Operators
import TreeQuery.Proofs.Pattern.Writes

namespace TreeQuery

namespace Mention

/-- Every reference comes after its variable was captured, here or among those `seen` before. -/
def InOrder : List String → List Mention → Prop
  | _, [] => True
  | seen, capture v :: ms => InOrder (seen ++ [v]) ms
  | seen, reference v :: ms => v ∈ seen ∧ InOrder seen ms

instance decidableInOrder : (seen : List String) → (ms : List Mention) → Decidable (InOrder seen ms)
  | _, [] => inferInstanceAs (Decidable True)
  | seen, capture v :: ms => decidableInOrder (seen ++ [v]) ms
  | seen, reference v :: ms =>
    have := decidableInOrder seen ms
    inferInstanceAs (Decidable (v ∈ seen ∧ InOrder seen ms))

theorem inOrder_append {seen : List String} {ms ns : List Mention} :
    InOrder seen (ms ++ ns) ↔
      InOrder seen ms ∧ InOrder (seen ++ ms.filterMap captured?) ns := by
  induction ms generalizing seen with
  | nil => simp [InOrder]
  | cons m ms ih =>
    cases m with
    | capture v => simp [InOrder, ih, captured?]
    | reference v => simp [InOrder, ih, List.filterMap_cons, captured?, and_assoc]

theorem InOrder.references_subset {seen : List String} {ms : List Mention} (h : InOrder seen ms) :
    ms.filterMap referenced? ⊆ seen ++ ms.filterMap captured? := by
  induction ms generalizing seen with
  | nil => simp
  | cons m ms ih =>
    cases m with
    | capture v => simpa [List.filterMap_cons, referenced?, captured?] using ih h
    | reference v =>
      intro w hw
      rcases List.mem_cons.mp hw with rfl | hw
      · exact List.mem_append_left _ h.1
      · exact ih h.2 hw

end Mention

/-- No variable is captured twice, and none is referred to before it is captured. -/
structure Mention.Scoped (seen : List String) (ms : List Mention) : Prop where
  nodup : (seen ++ ms.filterMap Mention.captured?).Nodup
  inOrder : Mention.InOrder seen ms

namespace Mention.Scoped

variable {seen : List String} {ms ns : List Mention}

theorem left (h : Scoped seen (ms ++ ns)) : Scoped seen ms where
  nodup := by
    have hn := h.nodup
    rw [List.filterMap_append, ← List.append_assoc] at hn
    exact (List.nodup_append.mp hn).1
  inOrder := (inOrder_append.mp h.inOrder).1

theorem right (h : Scoped seen (ms ++ ns)) : Scoped (seen ++ ms.filterMap captured?) ns where
  nodup := by
    have hn := h.nodup
    rwa [List.filterMap_append, ← List.append_assoc] at hn
  inOrder := (inOrder_append.mp h.inOrder).2

end Mention.Scoped

namespace Bindings

/-- Each of the variables is bound to a node of the tree. -/
def Has (t : Tree) (vs : List String) (s : Bindings) : Prop :=
  ∀ v ∈ vs, ∃ id n, s.lookup? v = some id ∧ t.get? id = some n

variable {t : Tree} {vs us : List String} {s : Bindings}

theorem Has.mono (h : Has t vs s) (hsub : us ⊆ vs) : Has t us s :=
  fun v hv => h v (hsub hv)

theorem Has.append (hv : Has t vs s) (hu : Has t us s) : Has t (vs ++ us) s := by
  intro v hm
  rcases List.mem_append.mp hm with hm | hm
  · exact hv v hm
  · exact hu v hm

theorem Has.bind (h : Has t vs s) (var : String) {id : NodeId} (hid : id < t.size) :
    Has t vs (s.bind var id) := by
  intro v hv
  rw [lookup_bind]
  by_cases he : v = var
  · obtain ⟨n, hn⟩ := Tree.lt_size_iff.mp hid
    exact ⟨id, n, if_pos he, hn⟩
  · rw [if_neg he]
    exact h v hv

theorem has_bind_self (s : Bindings) (var : String) {id : NodeId} (hid : id < t.size) :
    Has t [var] (s.bind var id) := by
  intro v hv
  obtain ⟨n, hn⟩ := Tree.lt_size_iff.mp hid
  exact ⟨id, n, by rw [lookup_bind, if_pos (List.mem_singleton.mp hv)], hn⟩

end Bindings

open Bindings

namespace Test

/-- With the variables bound to nodes the test ends without an error, and leaves them so. -/
def Steady (t : Tree) (vs : List String) (a : Test) : Prop :=
  ∀ s, Has t vs s → (∃ x, (a s).answer = .ok x) ∧ Has t vs (a s).bindings

variable {t : Tree} {vs : List String} {a b : Test}

theorem steady_answer (x : Bool) : (answer x).Steady t vs :=
  fun _ hs => ⟨⟨x, rfl⟩, hs⟩

/-- Going on with `b` after one of the answers of `a`. -/
theorem Steady.andThen (ha : a.Steady t vs) (hb : b.Steady t vs) {c : Test} (stop : Bool)
    (hgo : ∀ s, (a s).answer = .ok stop → c s = b (a s).bindings)
    (hstop : ∀ s, (a s).answer ≠ .ok stop → c s = a s) : c.Steady t vs := by
  intro s hs
  obtain ⟨hx, hkeep⟩ := ha s hs
  by_cases ho : (a s).answer = .ok stop
  · rw [hgo s ho]
    exact hb _ hkeep
  · rw [hstop s ho]
    exact ⟨hx, hkeep⟩

theorem Steady.both (ha : a.Steady t vs) (hb : b.Steady t vs) : (both a b).Steady t vs :=
  ha.andThen hb true (fun _ => both_of_true) (fun _ => both_of_not_true)

theorem Steady.either (ha : a.Steady t vs) (hb : b.Steady t vs) : (either a b).Steady t vs :=
  ha.andThen hb false (fun _ => either_of_false) (fun _ => either_of_not_false)

theorem Steady.not (ha : a.Steady t vs) : (not a).Steady t vs := by
  intro s hs
  obtain ⟨⟨x, hx⟩, hkeep⟩ := ha s hs
  rw [not_eq, hx]
  exact ⟨⟨!x, rfl⟩, hkeep⟩

theorem Steady.optional (ha : a.Steady t vs) : (optional a).Steady t vs := by
  intro s hs
  obtain ⟨⟨x, hx⟩, hkeep⟩ := ha s hs
  rw [optional_eq, hx]
  exact ⟨⟨true, rfl⟩, hkeep⟩

theorem Steady.capture (ha : a.Steady t vs) (var : String) {id : NodeId} (hid : id < t.size) :
    (capture a var id).Steady t vs := by
  rw [capture_eq]
  exact ha.both fun s hs => ⟨⟨true, rfl⟩, hs.bind var hid⟩

theorem steady_any {ts : List Test} (h : ∀ a ∈ ts, a.Steady t vs) : (any ts).Steady t vs := by
  induction ts with
  | nil => exact steady_answer false
  | cons a ts ih =>
    obtain ⟨ha, hts⟩ := List.forall_mem_cons.mp h
    exact ha.either (ih hts)

theorem steady_all {ts : List Test} (h : ∀ a ∈ ts, a.Steady t vs) : (all ts).Steady t vs := by
  induction ts with
  | nil => exact steady_answer true
  | cons a ts ih =>
    obtain ⟨ha, hts⟩ := List.forall_mem_cons.mp h
    exact ha.both (ih hts)

end Test

/-- A backreference whose variable is bound to a node compares with that node. -/
theorem Anchor.sameAsTest_of_lookup {t : Tree} {n m : Node} {var : String} {s : Bindings}
    {id : NodeId} (hl : s.lookup? var = some id) (hm : t.get? id = some m) :
    sameAsTest t n var s = ⟨.ok (m.agrees n.toMark), s⟩ := by
  simp [sameAsTest, Tree.get, hl, hm]

theorem Anchor.sameAsTest_steady {t : Tree} {n : Node} {var : String} {vs : List String}
    (hv : var ∈ vs) : (sameAsTest t n var).Steady t vs := by
  intro s hs
  obtain ⟨id, m, hl, hm⟩ := hs var hv
  rw [sameAsTest_of_lookup hl hm]
  exact ⟨⟨_, rfl⟩, hs⟩

theorem Anchor.test_steady [RegexEngine] {t : Tree} {id : NodeId} (hid : id < t.size) {a : Anchor}
    {vs : List String} (hr : ∀ v, .reference v ∈ a.mentions → v ∈ vs) :
    (a.test t id).Steady t vs := by
  obtain ⟨n, hn⟩ := Tree.lt_size_iff.mp hid
  rw [test_of_get hn]
  induction a with
  | sameAs var => exact sameAsTest_steady (hr var List.mem_cons_self)
  | differentFrom var => exact (sameAsTest_steady (hr var List.mem_cons_self)).not
  | capture anchor var ih =>
    exact (ih fun v hv => hr v (List.mem_append_left _ hv)).capture var hid
  | _ => exact Test.steady_answer _

theorem Operator.test_steady {t : Tree} (h : t.WellFormed) {id : NodeId} (hid : id < t.size)
    {op : Operator} (hop : op ≠ .nextSibling ∧ op ≠ .laterSibling) {operand : NodeId → Test}
    {vs : List String} (hp : ∀ m < t.size, (operand m).Steady t vs) :
    (op.test t id operand).Steady t vs := by
  refine test_rule h.linked hid Test.steady_answer (fun ho => ?_) Test.steady_any Test.steady_all
    fun m hm => hp m (hm.inside h.linked h.linked.closed_all hid)
  rcases ho with rfl | rfl
  · exact absurd rfl hop.1
  · exact absurd rfl hop.2

namespace Pattern

variable [RegexEngine]

theorem test_steady {t : Tree} (h : t.WellFormed) {id : NodeId} (hid : id < t.size) {p : Pattern}
    {vs : List String} (hr : p.references ⊆ vs) (hs : p.Supported) : (p.test t id).Steady t vs := by
  have part : ∀ {c p : Pattern}, Part c p → p.references ⊆ vs → c.references ⊆ vs :=
    fun hc hr => List.Subset.trans hc.references_subset hr
  induction p generalizing id with
  | node a cs ih =>
    have ha : (a.test t id).Steady t vs := Anchor.test_steady hid fun v hv =>
      hr (mem_references.mpr (List.mem_append_left _ hv))
    refine ha.both ?_
    rw [testAll_eq]
    apply Test.steady_all
    intro b hb
    obtain ⟨c, hc, rfl⟩ := List.mem_map.mp hb
    exact ih c hc hid (part (.constraint hc) hr) (hs.part (.constraint hc))
  | related op p ih =>
    exact Operator.test_steady h hid hs.operator fun m hm =>
      ih hm (part .operand hr) (hs.part .operand)
  | not p ih => exact (ih hid (part .negated hr) (hs.part .negated)).not
  | or p q ihp ihq =>
    exact (ihp hid (part .left hr) (hs.part .left)).either
      (ihq hid (part .right hr) (hs.part .right))
  | group p ih => exact ih hid (part .grouped hr) (hs.part .grouped)
  | all cs ih =>
    rw [test, testAll_eq]
    apply Test.steady_all
    intro b hb
    obtain ⟨c, hc, rfl⟩ := List.mem_map.mp hb
    exact ih c hc hid (part (.member hc) hr) (hs.part (.member hc))
  | optional p ih => exact (ih hid (part .option hr) (hs.part .option)).optional
  | capture p var ih => exact (ih hid (part .captured hr) (hs.part .captured)).capture var hid

end Pattern

end TreeQuery
