import TreeQuery.Proofs.Pattern.Course
import TreeQuery.Proofs.Search.Matches
import TreeQuery.Proofs.Tree.Stepwise
import TreeQuery.Regex.Engine
import TreeQuery.Unicode.Version15

namespace TreeQuery

open Relation Bindings

/-- The evaluation comes to an end. All that is bound on the way are nodes that are connected to
`id`, whatever the answer, and the only errors are those that the pattern's references and operators
can raise. -/
structure Pattern.Confined [RegexEngine] (t : Tree) (p : Pattern) (id : NodeId)
    (s : Bindings) : Prop where
  completes : ∃ ws, Runs t p id s (p.test t id s) ws
  connected : ∀ o ws, Runs t p id s o ws → p.test t id s = o ∧ o.bindings = s.overwrite ws ∧
    ∀ w ∈ ws, w.2 < t.size ∧ t.top w.2 = t.top id
  errors : ∀ e, (p.test t id s).answer = .error e → Raised p.references p.operators s e

namespace Search

variable [RegexEngine]

/-- A search hands out nothing but nodes below the topmost ancestor of the root, and no errors but
those for operators of the pattern that have no meaning. -/
structure Confined (t : Tree) (p : Pattern) (rs : List Result) : Prop where
  inside : ∀ m, .ok m ∈ rs → ∃ root, t.root = some root ∧ t.Covers (t.top root) m.node ∧
    ∀ v id, m.bindings.lookup? v = some id → t.Covers (t.top root) id
  errors : ∀ e, .error e ∈ rs → ∃ op ∈ p.operators, e = .unsupported op ∧
    (op = .nextSibling ∨ op = .laterSibling)
  no_errors : p.Supported → ∀ e, .error e ∉ rs

end Search

variable {t : Tree}

theorem Pattern.confined [RegexEngine] (h : t.Linked) (p : Pattern) {id : NodeId}
    (hid : id < t.size) {s : Bindings} (hs : s.Within (· < t.size)) : p.Confined t id s where
  completes := p.completes h hid s
  connected := by
    intro o ws hr
    obtain ⟨ht, hw⟩ := p.tells h (h.closed_connected hid) (EqvGen.refl id) s o ws hr
    refine ⟨ht, hw.eq, fun w hmem => ?_⟩
    have hc : t.Connected id w.2 := hw.inside w hmem
    exact ⟨(h.connected_lt hc).mp hid, (h.connected_iff.mp hc).symm⟩
  errors := (p.test_contained h h.closed_all hid s hs).2.2

namespace Search

section

variable [RegexEngine] {p : Pattern} {id : NodeId}

theorem test_of_matchAt_ok {s : Bindings} (hm : p.matchAt t id = .ok (some s)) :
    p.test t id .empty = ⟨.ok true, s⟩ := by
  rw [Pattern.matchAt] at hm
  split at hm <;> cases hm
  assumption

/-- A match at a node that belongs to a closed part of the arena binds only nodes of that part. -/
theorem within_of_matchAt {C : NodeId → Prop} (h : t.Linked) (hC : t.Closed C) (hid : C id)
    {s : Bindings} (hm : p.matchAt t id = .ok (some s)) : s.Within C := by
  have hwithin := (p.test_contained h hC hid .empty within_empty).1
  rwa [test_of_matchAt_ok hm] at hwithin

theorem answer_of_matchAt_error {e : MatchError} (hm : p.matchAt t id = .error e) :
    (p.test t id .empty).answer = .error e := by
  rw [Pattern.matchAt] at hm
  split at hm <;> cases hm
  rename_i he
  rw [he]

theorem Finds.matchAt_ok {ids : List NodeId} {rs : List Result} (h : Finds p t ids rs) {m : Match}
    (hm : .ok m ∈ rs) : p.matchAt t m.node = .ok (some m.bindings) := by
  induction h with
  | done => cases hm
  | found he _ ih =>
    rcases List.mem_cons.mp hm with heq | hm
    · cases heq
      exact he
    · exact ih hm
  | failed _ _ ih | unbound _ _ ih => exact ih hm
  | unsupported => simp at hm

theorem Finds.exists_unsupported {ids : List NodeId} {rs : List Result} (h : Finds p t ids rs)
    {e : MatchError} (he : .error e ∈ rs) :
    ∃ id ∈ ids, ∃ op, e = .unsupported op ∧ p.matchAt t id = .error (.unsupported op) := by
  induction h with
  | done => cases he
  | found _ _ ih =>
    rcases List.mem_cons.mp he with heq | he
    · cases heq
    · obtain ⟨id, hid, hop⟩ := ih he
      exact ⟨id, List.mem_cons_of_mem _ hid, hop⟩
  | failed _ _ ih | unbound _ _ ih =>
    obtain ⟨id, hid, hop⟩ := ih he
    exact ⟨id, List.mem_cons_of_mem _ hid, hop⟩
  | @unsupported id ids op hm =>
    cases List.mem_singleton.mp he
    exact ⟨id, List.mem_cons_self, op, rfl, hm⟩

/-- A match at a node below the root stays in the tree of the root. -/
theorem covers_of_match (h : t.Linked) {root : NodeId} {m : Match} (hnode : m.node < t.size)
    (hroot : t.Covers root m.node) (hm : p.matchAt t m.node = .ok (some m.bindings)) :
    t.Covers (t.top root) m.node ∧
      ∀ v id, m.bindings.lookup? v = some id → t.Covers (t.top root) id := by
  have hconn : t.Connected root m.node := hroot.connected
  have hcovers : ∀ {id}, t.Connected m.node id → t.Covers (t.top root) id := by
    intro id hid
    rw [h.connected_iff.mp (hconn.trans _ _ _ hid)]
    exact h.top_covers id
  have hwithin : m.bindings.Within (t.Connected m.node) :=
    within_of_matchAt h (h.closed_connected hnode) (EqvGen.refl _) hm
  exact ⟨hcovers (EqvGen.refl _), fun v id hv => hcovers (hwithin v id hv)⟩

/-- An operator at which a search is given up is one of the two without meaning. -/
theorem unsupported_of_matchAt (h : t.Linked) (hid : id < t.size) {op : Operator}
    (hm : p.matchAt t id = .error (.unsupported op)) :
    op ∈ p.operators ∧ (op = .nextSibling ∨ op = .laterSibling) := by
  have hraised := (p.test_contained h h.closed_all hid .empty within_empty).2.2 _
    (answer_of_matchAt_error hm)
  cases hraised with
  | unsupported hop hno => exact ⟨hop, hno⟩

theorem Finds.confined (h : t.Linked) {root : NodeId} (ht : t.root = some root)
    (hroot : root < t.size) {rs : List Result} (hf : Finds p t (t.preorder root) rs) :
    Confined t p rs := by
  have hcovers : ∀ {id}, id ∈ t.preorder root → t.Covers root id :=
    fun hid => h.descending.mem_preorder.mp hid
  have hlt : ∀ {id}, id ∈ t.preorder root → id < t.size :=
    fun hid => (hcovers hid).lt_size h.descending hroot
  have herrors : ∀ e, .error e ∈ rs → ∃ op ∈ p.operators, e = .unsupported op ∧
      (op = .nextSibling ∨ op = .laterSibling) := by
    intro e he
    obtain ⟨id, hid, op, rfl, hm⟩ := hf.exists_unsupported he
    obtain ⟨hop, hno⟩ := unsupported_of_matchAt h (hlt hid) hm
    exact ⟨op, hop, rfl, hno⟩
  refine ⟨fun m hm => ⟨root, ht, ?_⟩, herrors, fun hs e he => ?_⟩
  · have hnode := hf.node_mem hm
    exact covers_of_match h (hlt hnode) (hcovers hnode) (hf.matchAt_ok hm)
  · obtain ⟨op, hop, _, rfl | rfl⟩ := herrors e he
    · exact hs.1 hop
    · exact hs.2 hop

/-- The results of a search, asked for all together or one at a time, are those of trying the
subtree of the root in pre-order. -/
theorem finds_all (h : t.Linked) {root : NodeId} (ht : t.root = some root) (hroot : root < t.size)
    (p : Pattern) : Finds p t (t.preorder root) (all p t) ∧
      Yields (Matches.next p t) (.start root true) (all p t) := by
  have hlt : ∀ id ∈ t.preorder root, id < t.size := fun id hid =>
    (h.descending.mem_preorder.mp hid).lt_size h.descending hroot
  have hall : all p t = collect p t ((t.preorder root).map .ok) := by
    rw [all, ht, ← Tree.steps_of_lt hlt]
    rfl
  have hfinds : Finds p t (t.preorder root) (all p t) := by
    rw [hall]
    exact finds_collect h hlt
  refine ⟨hfinds, Matches.yields_of_finds h.descending hfinds rfl ?_ (List.flatMap_singleton _ _)⟩
  exact fun a ha => List.mem_singleton.mp ha ▸ hroot

/-- In a tree without broken links every walk ends and every evaluation is confined, and so is all
that a query hands out, one result at a time. -/
theorem confined_of_linked (h : t.Linked) :
    (∀ id < t.size, Ends t.parentStep id (t.ancestors id) ∧ Ends t.headStep id (t.headChain id) ∧
      Ends t.preorderStep [id] (t.preorder id)) ∧
    (∀ p id s, id < t.size → s.Within (· < t.size) → Pattern.Confined t p id s) ∧
    ∀ text p, Pattern.parse text = .ok p → (∀ root ∈ t.root, root < t.size) →
      ∃ rs, query text t = .ok rs ∧
        (∀ root ∈ t.root, Yields (Matches.next p t) (.start root true) rs) ∧ Confined t p rs := by
  refine ⟨fun id hid => ?_, fun p id s hid hs => p.confined h hid hs, fun text p hp hroot => ?_⟩
  · exact ⟨h.ends_ancestors id, h.ends_headChain hid, h.descending.ends_preorder hid⟩
  refine ⟨all p t, by rw [query, hp]; rfl, ?_⟩
  cases ht : t.root with
  | none =>
    have hall : all p t = [] := by rw [all, ht]
    rw [hall]
    exact ⟨nofun, ⟨nofun, nofun, fun _ _ => List.not_mem_nil⟩⟩
  | some root =>
    obtain ⟨hfinds, hyields⟩ := finds_all h ht (hroot root ht) p
    refine ⟨fun root' he => ?_, hfinds.confined h ht (hroot root ht)⟩
    cases he
    exact hyields

end

/-- A negation that binds a variable and then fails, and a query for whatever has something below
it. -/
theorem confined_of_linked_sentence :
    Tree.sentence.Linked ∧ Ends Tree.sentence.parentStep 5 (Tree.sentence.ancestors 5) ∧
      Pattern.Confined Tree.sentence (.not inner) 4 (Bindings.empty.bind "Y" 2) ∧
      ∃ rs, query "*=X < *" Tree.sentence = .ok rs ∧
        Yields (Matches.next inner Tree.sentence) (.start 0 true) rs ∧
        Confined Tree.sentence inner rs := by
  have h : Tree.sentence.Linked := Tree.sentence_wellFormed.linked
  have hparse : Pattern.parse "*=X < *" = .ok inner := by decide +kernel
  obtain ⟨hwalks, hconfined, hquery⟩ := confined_of_linked h
  have hs : (Bindings.empty.bind "Y" 2).Within (· < Tree.sentence.size) :=
    within_empty.bind (by decide) "Y"
  obtain ⟨rs, hrs, hyields, hin⟩ := hquery _ _ hparse (by decide)
  exact ⟨h, (hwalks 5 (by decide)).1, hconfined _ 4 _ (by decide) hs, rs, hrs, hyields 0 rfl, hin⟩

end Search

end TreeQuery
