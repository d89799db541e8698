import TreeQuery.Proofs.Pattern.Containment

namespace TreeQuery

/-- Variables in the order in which they are bound, each with its node. -/
abbrev Writes := List (String × NodeId)

namespace Anchor

variable [RegexEngine]

def captures (a : Anchor) : List String :=
  a.mentions.filterMap Mention.captured?

/-- What the anchor binds where it holds; where it does not, it binds nothing. -/
def writes (a : Anchor) (id : NodeId) : Writes :=
  a.captures.map (·, id)

end Anchor

namespace Pattern

variable [RegexEngine]

/-- Patterns are asked one after the other, each at its node, as long as the answer is `go`. -/
inductive InTurn (go : Bool) (run : Pattern → NodeId → Bindings → Outcome → Writes → Prop) :
    List (Pattern × NodeId) → Bindings → Outcome → Writes → Prop
  | done {s} : InTurn go run [] s ⟨.ok go, s⟩ []
  | stop {p id rest s o ws} : run p id s o ws → o.answer ≠ .ok go →
      InTurn go run ((p, id) :: rest) s o ws
  | next {p id rest s s' o ws vs} : run p id s ⟨.ok go, s'⟩ ws → InTurn go run rest s' o vs →
      InTurn go run ((p, id) :: rest) s o (ws ++ vs)

/-- The pattern, asked at a node that is there, comes to an outcome and has bound the variables on
the way. -/
inductive Runs (t : Tree) : Pattern → NodeId → Bindings → Outcome → Writes → Prop
  | refused {a cs id n s o} : t.get? id = some n → a.testNode t n id s = o → o.answer ≠ .ok true →
      Runs t (node a cs) id s o []
  | node {a cs id n s s' o ws} : t.get? id = some n → a.testNode t n id s = ⟨.ok true, s'⟩ →
      InTurn true (Runs t) (cs.map (·, id)) s' o ws →
      Runs t (node a cs) id s o (a.writes id ++ ws)
  | some {op p id n s o ws} : t.get? id = some n → op.isRelational = true →
      InTurn false (Runs t) ((op.targets t id).map (p, ·)) s o ws → Runs t (related op p) id s o ws
  | every {p id n s o ws} : t.get? id = some n → t.isLeaf id = false →
      InTurn true (Runs t) ((t.children id).map (p, ·)) s o ws →
      Runs t (related .everyChild p) id s o ws
  | decided {op p id n holds s} : t.get? id = some n → op.reach t id n = .decided holds →
      Runs t (related op p) id s ⟨.ok holds, s⟩ []
  | unsupported {op p id n s} : t.get? id = some n → op.reach t id n = .unsupported →
      Runs t (related op p) id s ⟨.error (.unsupported op), s⟩ []
  | not {p id s o ws} : Runs t p id s o ws → Runs t (not p) id s ⟨o.answer.map (! ·), o.bindings⟩ ws
  | or {p q id s o ws} : InTurn false (Runs t) [(p, id), (q, id)] s o ws → Runs t (or p q) id s o ws
  | group {p id s o ws} : Runs t p id s o ws → Runs t (group p) id s o ws
  | all {cs id s o ws} : InTurn true (Runs t) (cs.map (·, id)) s o ws → Runs t (all cs) id s o ws
  | optional {p id s o ws} : Runs t p id s o ws →
      Runs t (optional p) id s ⟨o.answer.map fun _ => true, o.bindings⟩ ws
  | passed {p var id s o ws} : Runs t p id s o ws → o.answer ≠ .ok true →
      Runs t (capture p var) id s o ws
  | capture {p var id s s' ws} : Runs t p id s ⟨.ok true, s'⟩ ws →
      Runs t (capture p var) id s ⟨.ok true, s'.bind var id⟩ (ws ++ [(var, id)])

end Pattern

namespace Test

/-- Asks one test after the other as long as the answer is `go`. -/
def inTurn (go : Bool) (ts : List Test) : Test :=
  if go then all ts else any ts

variable {go : Bool} {a : Test} {ts : List Test} {s : Bindings}

theorem inTurn_nil : inTurn go [] s = ⟨.ok go, s⟩ := by
  cases go <;> rfl

theorem inTurn_next (h : (a s).answer = .ok go) :
    inTurn go (a :: ts) s = inTurn go ts (a s).bindings := by
  cases go with
  | false => exact either_of_false h
  | true => exact both_of_true h

theorem inTurn_stop (h : (a s).answer ≠ .ok go) : inTurn go (a :: ts) s = a s := by
  cases go with
  | false => exact either_of_not_false h
  | true => exact both_of_not_true h

end Test

namespace Bindings

/-- The bindings `s'` are what the writes make of `s`, and bind nodes of `C` only. -/
structure Wrote (C : NodeId → Prop) (s s' : Bindings) (ws : Writes) : Prop where
  eq : s' = s.overwrite ws
  inside : ∀ w ∈ ws, C w.2

variable {C : NodeId → Prop} {s s' s'' : Bindings} {ws vs : Writes}

theorem wrote_nil : Wrote C s s [] :=
  ⟨rfl, fun _ hw => absurd hw List.not_mem_nil⟩

theorem Wrote.append (h : Wrote C s s' ws) (h' : Wrote C s' s'' vs) : Wrote C s s'' (ws ++ vs) := by
  refine ⟨?_, List.forall_mem_append.mpr ⟨h.inside, h'.inside⟩⟩
  rw [h'.eq, h.eq, overwrite_append]

theorem wrote_bind {id : NodeId} (hid : C id) (var : String) :
    Wrote C s (s.bind var id) [(var, id)] :=
  ⟨rfl, List.forall_mem_singleton.mpr hid⟩

end Bindings

open Bindings

namespace Anchor

variable [RegexEngine]

variable {t : Tree} {C : NodeId → Prop} {n : Node} {id : NodeId}

theorem wrote_of_no_captures {a : Anchor} (ha : a.captures = []) (s : Bindings) :
    Wrote C s (a.testNode t n id s).bindings
      (if (a.testNode t n id s).answer = .ok true then a.writes id else []) := by
  have hlocal : (a.testNode t n id).Local (a.mentions.filterMap Mention.referenced?) [] := by
    refine testNode_local (fun v hv => List.mem_filterMap.mpr ⟨_, hv, rfl⟩) fun v hv => ?_
    exact ha ▸ List.mem_filterMap.mpr ⟨_, hv, rfl⟩
  have hnil : a.writes id = [] := by rw [writes, ha, List.map_nil]
  rw [hlocal.bindings_eq, hnil, ite_self]
  exact wrote_nil

/-- An anchor binds all its variables or none. -/
theorem wrote_testNode (hid : C id) (a : Anchor) (s : Bindings) :
    Wrote C s (a.testNode t n id s).bindings
      (if (a.testNode t n id s).answer = .ok true then a.writes id else []) := by
  induction a with
  | capture anchor var ih =>
    rw [testNode, Test.capture_eq]
    by_cases h : (anchor.testNode t n id s).answer = .ok true
    · rw [Test.both_of_true h, if_pos rfl]
      rw [if_pos h] at ih
      have hwrites : (capture anchor var).writes id = anchor.writes id ++ [(var, id)] := by
        simp [writes, captures, mentions, Mention.captured?]
      rw [hwrites]
      exact ih.append (wrote_bind hid var)
    · rw [Test.both_of_not_true h, if_neg h]
      rwa [if_neg h] at ih
  | _ => exact wrote_of_no_captures rfl s

end Anchor

namespace Pattern

variable [RegexEngine]

variable {t : Tree} {C : NodeId → Prop}

/-- What a run tells is the test's own answer and bindings, and all that the test binds, each
variable to a node of `C`. -/
def Tells (t : Tree) (C : NodeId → Prop) (p : Pattern) (id : NodeId) : Prop :=
  ∀ s o ws, Runs t p id s o ws → p.test t id s = o ∧ Wrote C s o.bindings ws

/-- From all bindings the pattern comes to its end. -/
def Completes (t : Tree) (p : Pattern) (id : NodeId) : Prop :=
  ∀ s, ∃ ws, Runs t p id s (p.test t id s) ws

variable {go : Bool} {asked : List (Pattern × NodeId)} {s : Bindings}

theorem InTurn.tells {o : Outcome} {ws : Writes} (h : InTurn go (Runs t) asked s o ws)
    (hrun : ∀ x ∈ asked, Tells t C x.1 x.2) :
    Test.inTurn go (asked.map fun x => x.1.test t x.2) s = o ∧ Wrote C s o.bindings ws := by
  induction h with
  | done => exact ⟨Test.inTurn_nil, wrote_nil⟩
  | stop hr hstop =>
    obtain ⟨rfl, hw⟩ := hrun _ List.mem_cons_self _ _ _ hr
    exact ⟨Test.inTurn_stop hstop, hw⟩
  | next hr _ ih =>
    obtain ⟨ht, hw⟩ := hrun _ List.mem_cons_self _ _ _ hr
    obtain ⟨ht', hw'⟩ := ih fun x hx => hrun x (List.mem_cons_of_mem _ hx)
    refine ⟨?_, hw.append hw'⟩
    rw [List.map_cons, Test.inTurn_next (by rw [ht]), ht]
    exact ht'

theorem exists_inTurn (go : Bool) (hrun : ∀ x ∈ asked, Completes t x.1 x.2) (s : Bindings) :
    ∃ ws, InTurn go (Runs t) asked s (Test.inTurn go (asked.map fun x => x.1.test t x.2) s) ws := by
  induction asked generalizing s with
  | nil => exact ⟨[], Test.inTurn_nil ▸ .done⟩
  | cons x rest ih =>
    obtain ⟨p, id⟩ := x
    obtain ⟨hx, hrest⟩ := List.forall_mem_cons.mp hrun
    obtain ⟨ws, hws⟩ := hx s
    rw [List.map_cons]
    by_cases h : (p.test t id s).answer = .ok go
    · obtain ⟨vs, hvs⟩ := ih hrest (p.test t id s).bindings
      rw [Test.inTurn_next h]
      have hws' : Runs t p id s ⟨.ok go, (p.test t id s).bindings⟩ ws := h ▸ hws
      exact ⟨ws ++ vs, .next hws' hvs⟩
    · rw [Test.inTurn_stop h]
      exact ⟨ws, .stop hws h⟩

section Asked

variable {p : Pattern} {id : NodeId} {cs : List Pattern}

theorem testAll_eq_inTurn :
    testAll t cs id = Test.inTurn true ((cs.map (·, id)).map fun x => x.1.test t x.2) := by
  rw [testAll_eq, List.map_map]
  rfl

theorem or_eq_inTurn (p q : Pattern) (id : NodeId) :
    (or p q).test t id = Test.inTurn false ([(p, id), (q, id)].map fun x => x.1.test t x.2) := by
  have hlast : Test.inTurn false [q.test t id] = q.test t id := by
    funext s
    by_cases h : (q.test t id s).answer = .ok false
    · rw [Test.inTurn_next h, Test.inTurn_nil, ← h]
    · exact Test.inTurn_stop h
  rw [test, ← hlast]
  rfl

theorem some_eq_inTurn (h : t.Linked) (hid : id < t.size) {op : Operator}
    (hop : op.isRelational = true) : (related op p).test t id =
      Test.inTurn false (((op.targets t id).map (p, ·)).map fun x => x.1.test t x.2) := by
  rw [test, Operator.test_eq_targets h hid hop, List.map_map]
  rfl

theorem every_eq_inTurn (hid : id < t.size) (hleaf : t.isLeaf id = false) :
    (related .everyChild p).test t id =
      Test.inTurn true (((t.children id).map (p, ·)).map fun x => x.1.test t x.2) := by
  rw [test, Operator.test_everyChild hid, hleaf, List.map_map]
  rfl

end Asked

/-- From a node of a part of the arena that no link leaves, nothing outside of it is bound. -/
theorem tells (h : t.Linked) (hC : t.Closed C) (p : Pattern) {id : NodeId} (hid : C id) :
    Tells t C p id := by
  -- the induction is on the pattern, not on the run: what is asked in turn are parts of it
  induction p generalizing id with
  | node a cs ih =>
    have hcs : ∀ x ∈ cs.map (·, id), Tells t C x.1 x.2 :=
      List.forall_mem_map.mpr fun c hc => ih c hc hid
    intro s o ws hr
    cases hr with
    | @refused _ _ _ n _ _ hn ha hno =>
      subst ha
      have hw := a.wrote_testNode (t := t) (n := n) hid s
      rw [if_neg hno] at hw
      rw [test, Anchor.test_of_get hn]
      exact ⟨Test.both_of_not_true hno, hw⟩
    | @node _ _ _ n _ _ _ _ hn ha hrun =>
      have hw := a.wrote_testNode (t := t) (n := n) hid s
      rw [ha, if_pos rfl] at hw
      rw [test, Anchor.test_of_get hn, Test.both_of_true (by rw [ha]), ha, testAll_eq_inTurn]
      obtain ⟨ht, hw'⟩ := hrun.tells hcs
      exact ⟨ht, hw.append hw'⟩
  | related op p ih =>
    have hlt : id < t.size := hC.lt_size hid
    intro s o ws hr
    cases hr with
    | some hn hop hrun =>
      have htargets : ∀ x ∈ (op.targets t id).map (p, ·), Tells t C x.1 x.2 :=
        List.forall_mem_map.mpr fun m hm => ih (Operator.targets_inside h hC hm hid)
      rw [some_eq_inTurn h hlt hop]
      exact hrun.tells htargets
    | every hn hleaf hrun =>
      have hchildren : ∀ x ∈ (t.children id).map (p, ·), Tells t C x.1 x.2 :=
        List.forall_mem_map.mpr fun m hm => ih (hC.down hm hid)
      rw [every_eq_inTurn hlt hleaf]
      exact hrun.tells hchildren
    | decided hn hreach =>
      rw [test, Operator.test_of_get hn, hreach]
      exact ⟨rfl, wrote_nil⟩
    | unsupported hn hreach =>
      rw [test, Operator.test_of_get hn, hreach]
      exact ⟨rfl, wrote_nil⟩
  | not p ih =>
    intro s o ws hr
    cases hr with
    | not hp =>
      obtain ⟨rfl, hw⟩ := ih hid _ _ _ hp
      exact ⟨Test.not_eq, hw⟩
  | or p q ihp ihq =>
    have hsides : ∀ x ∈ [(p, id), (q, id)], Tells t C x.1 x.2 := by
      intro x hx
      rcases List.mem_pair.mp hx with rfl | rfl
      · exact ihp hid
      · exact ihq hid
    intro s o ws hr
    cases hr with
    | or hrun =>
      rw [or_eq_inTurn]
      exact hrun.tells hsides
  | group p ih =>
    intro s o ws hr
    cases hr with
    | group hp => exact ih hid _ _ _ hp
  | all cs ih =>
    have hcs : ∀ x ∈ cs.map (·, id), Tells t C x.1 x.2 :=
      List.forall_mem_map.mpr fun c hc => ih c hc hid
    intro s o ws hr
    cases hr with
    | all hrun =>
      rw [test, testAll_eq_inTurn]
      exact hrun.tells hcs
  | optional p ih =>
    intro s o ws hr
    cases hr with
    | optional hp =>
      obtain ⟨rfl, hw⟩ := ih hid _ _ _ hp
      exact ⟨Test.optional_eq, hw⟩
  | capture p var ih =>
    intro s o ws hr
    cases hr with
    | passed hp hno =>
      obtain ⟨rfl, hw⟩ := ih hid _ _ _ hp
      rw [test, Test.capture_eq]
      exact ⟨Test.both_of_not_true hno, hw⟩
    | capture hp =>
      obtain ⟨ht, hw⟩ := ih hid _ _ _ hp
      rw [test, Test.capture_eq, Test.both_of_true (by rw [ht]), ht]
      exact ⟨rfl, hw.append (wrote_bind hid var)⟩

/-- An operator comes to its end if its operand does wherever it is asked. -/
theorem Completes.related (h : t.Linked) (op : Operator) {p : Pattern} {id : NodeId}
    (hid : id < t.size) (hp : ∀ m < t.size, Completes t p m) : Completes t (related op p) id := by
  obtain ⟨n, hn⟩ := Tree.lt_size_iff.mp hid
  have decided {holds : Bool} (hr : op.reach t id n = .decided holds) :
      Completes t (Pattern.related op p) id := by
    intro s
    rw [test, Operator.test_of_get hn, hr]
    exact ⟨[], .decided hn hr⟩
  have unsupported (hr : op.reach t id n = .unsupported) :
      Completes t (Pattern.related op p) id := by
    intro s
    rw [test, Operator.test_of_get hn, hr]
    exact ⟨[], .unsupported hn hr⟩
  cases hrel : op.isRelational with
  | true =>
    intro s
    have hrun : ∀ x ∈ (op.targets t id).map (p, ·), Completes t x.1 x.2 :=
      List.forall_mem_map.mpr fun m hm => hp m (Operator.targets_lt h hid hm)
    obtain ⟨ws, hws⟩ := exists_inTurn false hrun s
    rw [some_eq_inTurn h hid hrel]
    exact ⟨ws, .some hn hrel hws⟩
  | false =>
    cases op with
    | everyChild =>
      cases hleaf : t.isLeaf id with
      | true =>
        have hl : n.isLeaf = true := Tree.isLeaf_of_get hn ▸ hleaf
        exact decided (by rw [Operator.reach, if_pos hl])
      | false =>
        intro s
        have hrun : ∀ x ∈ (t.children id).map (p, ·), Completes t x.1 x.2 :=
          List.forall_mem_map.mpr fun m hm => hp m (h.descending.child_lt hm)
        obtain ⟨ws, hws⟩ := exists_inTurn true hrun s
        rw [every_eq_inTurn hid hleaf]
        exact ⟨ws, .every hn hleaf hws⟩
    | childCount k | headIndex k => exact decided rfl
    | nextSibling | laterSibling => exact unsupported rfl
    | _ => cases hrel

/-- Every evaluation that begins at a node of the arena comes to its end. -/
theorem completes (h : t.Linked) (p : Pattern) {id : NodeId} (hid : id < t.size) :
    Completes t p id := by
  induction p generalizing id with
  | node a cs ih =>
    intro s
    obtain ⟨n, hn⟩ := Tree.lt_size_iff.mp hid
    have hrun : ∀ x ∈ cs.map (·, id), Completes t x.1 x.2 :=
      List.forall_mem_map.mpr fun c hc => ih c hc hid
    rw [test, Anchor.test_of_get hn]
    by_cases ha : (a.testNode t n id s).answer = .ok true
    · obtain ⟨ws, hws⟩ := exists_inTurn true hrun (a.testNode t n id s).bindings
      rw [Test.both_of_true ha, testAll_eq_inTurn]
      exact ⟨_, .node hn (by rw [← ha]) hws⟩
    · rw [Test.both_of_not_true ha]
      exact ⟨[], .refused hn rfl ha⟩
  | related op p ih => exact .related h op hid fun m hm => ih hm
  | not p ih =>
    intro s
    obtain ⟨ws, hws⟩ := ih hid s
    rw [test, Test.not_eq]
    exact ⟨ws, .not hws⟩
  | or p q ihp ihq =>
    intro s
    have hrun : ∀ x ∈ [(p, id), (q, id)], Completes t x.1 x.2 := by
      intro x hx
      rcases List.mem_pair.mp hx with rfl | rfl
      · exact ihp hid
      · exact ihq hid
    obtain ⟨ws, hws⟩ := exists_inTurn false hrun s
    rw [or_eq_inTurn]
    exact ⟨ws, .or hws⟩
  | group p ih =>
    intro s
    obtain ⟨ws, hws⟩ := ih hid s
    exact ⟨ws, .group hws⟩
  | all cs ih =>
    intro s
    have hrun : ∀ x ∈ cs.map (·, id), Completes t x.1 x.2 :=
      List.forall_mem_map.mpr fun c hc => ih c hc hid
    obtain ⟨ws, hws⟩ := exists_inTurn true hrun s
    rw [test, testAll_eq_inTurn]
    exact ⟨ws, .all hws⟩
  | optional p ih =>
    intro s
    obtain ⟨ws, hws⟩ := ih hid s
    rw [test, Test.optional_eq]
    exact ⟨ws, .optional hws⟩
  | capture p var ih =>
    intro s
    obtain ⟨ws, hws⟩ := ih hid s
    rw [test, Test.capture_eq]
    by_cases hp : (p.test t id s).answer = .ok true
    · rw [Test.both_of_true hp]
      have hws' : Runs t p id s ⟨.ok true, (p.test t id s).bindings⟩ ws := hp ▸ hws
      exact ⟨_, .capture hws'⟩
    · rw [Test.both_of_not_true hp]
      exact ⟨ws, .passed hws hp⟩

end Pattern

end TreeQuery
