import TreeQuery.Proofs.Bracket.Numbering
import TreeQuery.Proofs.Calls
import TreeQuery.Proofs.Pattern.Containment
import TreeQuery.Proofs.Tree.Preorder
import TreeQuery.Search
import TreeQuery.Regex.Engine
import TreeQuery.Unicode.Version15

namespace TreeQuery.Search

section

variable [RegexEngine]

/-- The results of trying the nodes `ids` one after the other, each with fresh bindings. -/
inductive Finds (p : Pattern) (t : Tree) : List NodeId → List Result → Prop
  | done : Finds p t [] []
  | found {id ids rs s} : p.matchAt t id = .ok (some s) → Finds p t ids rs →
      Finds p t (id :: ids) (.ok ⟨id, s⟩ :: rs)
  | failed {id ids rs} : p.matchAt t id = .ok none → Finds p t ids rs → Finds p t (id :: ids) rs
  | unbound {id ids rs var} : p.matchAt t id = .error (.unbound var) → Finds p t ids rs →
      Finds p t (id :: ids) rs
  | unsupported {id ids op} : p.matchAt t id = .error (.unsupported op) →
      Finds p t (id :: ids) [.error (.unsupported op)]

variable {p : Pattern} {t : Tree}

/-- A tree whose links all lead somewhere gives no other errors. -/
theorem matchAt_not_broken (h : t.Linked) {id : NodeId} (hid : id < t.size) (link : BrokenLink) :
    p.matchAt t id ≠ .error (.broken link) := by
  intro hm
  have hraised := (p.test_contained h h.closed_all hid .empty Bindings.within_empty).2.2
    (.broken link)
  rw [Pattern.matchAt] at hm
  split at hm
  · cases hm
  · cases hm
  · rename_i he
    cases hm
    rw [he] at hraised
    exact Raised.not_broken (hraised rfl)

theorem finds_collect (h : t.Linked) {ids : List NodeId} (hids : ∀ id ∈ ids, id < t.size) :
    Finds p t ids (collect p t (ids.map .ok)) := by
  induction ids with
  | nil => exact .done
  | cons id ids ih =>
    obtain ⟨hid, hrest⟩ := List.forall_mem_cons.mp hids
    have hm := matchAt_not_broken (p := p) h hid
    rw [List.map_cons, collect]
    cases he : p.matchAt t id with
    | ok o =>
      cases o with
      | none => exact .failed he (ih hrest)
      | some s => exact .found he (ih hrest)
    | error e =>
      cases e with
      | unbound var => exact .unbound he (ih hrest)
      | unsupported op => exact .unsupported he
      | broken link => exact absurd he (hm link)

/-- Matches come at the nodes that are tried. -/
theorem Finds.node_mem {ids : List NodeId} {rs : List Result} (h : Finds p t ids rs) {m : Match}
    (hm : .ok m ∈ rs) : m.node ∈ ids := by
  induction h with
  | done => cases hm
  | found _ _ ih =>
    cases hm with
    | head => exact List.mem_cons_self
    | tail _ hm => exact List.mem_cons_of_mem _ (ih hm)
  | failed _ _ ih | unbound _ _ ih => exact List.mem_cons_of_mem _ (ih hm)
  | unsupported => simp at hm

/-- Each match comes at a larger number than the ones before it. -/
def Increasing (rs : List Result) : Prop :=
  rs.Pairwise fun r r' => ∀ m m', r = .ok m → r' = .ok m' → m.node < m'.node

theorem Finds.increasing {ids : List NodeId} {rs : List Result} (h : Finds p t ids rs)
    (hids : ids.Pairwise (· < ·)) : Increasing rs := by
  induction h with
  | done => exact .nil
  | found _ hrest ih =>
    obtain ⟨hlt, hids⟩ := List.pairwise_cons.mp hids
    refine .cons ?_ (ih hids)
    intro r hr m m' he he'
    cases he
    exact hlt _ (hrest.node_mem (he' ▸ hr))
  | failed _ _ ih | unbound _ _ ih => exact ih (List.pairwise_cons.mp hids).2
  | unsupported => exact List.pairwise_singleton _ _

namespace Matches

/-- The nodes that are still to be tried. -/
def remaining (t : Tree) (m : Matches) : List NodeId :=
  if m.recursive then m.pending.flatMap t.preorder else m.pending

omit [RegexEngine] in
/-- Taking a candidate leaves the others. -/
theorem candidate_cons (h : t.Descending) {m : Matches} (hm : ∀ a ∈ m.pending, a < t.size)
    {id : NodeId} {ids : List NodeId} (hr : m.remaining t = id :: ids) :
    ∃ pending, m.candidate? t = .ok (some (id, pending)) ∧ (∀ a ∈ pending, a < t.size) ∧
      Matches.remaining t { m with pending } = ids := by
  obtain ⟨pending, recursive, done⟩ := m
  cases pending with
  | nil => cases recursive <;> cases hr
  | cons a pending =>
    obtain ⟨ha, hpending⟩ := List.forall_mem_cons.mp hm
    cases recursive with
    | false =>
      cases hr
      exact ⟨_, rfl, hpending, rfl⟩
    | true =>
      have he : a :: (t.children a ++ pending).flatMap t.preorder = id :: ids := by
        rw [← h.flatMap_preorder_cons]
        exact hr
      obtain ⟨rfl, rfl⟩ := List.cons.inj he
      refine ⟨t.children a ++ pending, Tree.preorderStep_cons ha pending, ?_, rfl⟩
      intro b hb
      rcases List.mem_append.mp hb with hb | hb
      · exact h.child_lt hb
      · exact hpending b hb

omit [RegexEngine] in
theorem candidate_nil (h : t.Descending) {m : Matches} (hr : m.remaining t = []) :
    m.candidate? t = .ok none := by
  obtain ⟨pending, recursive, done⟩ := m
  cases pending with
  | nil => cases recursive <;> rfl
  | cons a pending =>
    cases recursive with
    | false => cases hr
    | true =>
      have he : (a :: pending).flatMap t.preorder = [] := hr
      rw [h.flatMap_preorder_cons] at he
      cases he

theorem next_of_done {m : Matches} (hm : m.done = true) : m.next p t = (none, m) :=
  if_pos hm

/-- A call tries a candidate and, if that gives nothing, does what the next call would do. -/
theorem next_of_attempt {m : Matches} (hm : m.done = false) :
    m.next p t =
      match m.attempt p t with
      | .inl m' => Id.run (repeatM (fun m => pure (m.attempt p t)) m')
      | .inr r => r := by
  rw [next, hm, if_neg (by simp), repeatM_eq_of_monadTail]
  cases h : m.attempt p t <;> simp [repeatM.body, h]

theorem next_of_given {m : Matches} (hm : m.done = false) {r : Option Result × Matches}
    (h : m.attempt p t = .inr r) : m.next p t = r := by
  rw [next_of_attempt hm, h]

theorem next_of_passed {m m' : Matches} (hm : m.done = false) (h : m.attempt p t = .inl m')
    (hm' : m'.done = false) : m.next p t = m'.next p t := by
  rw [next_of_attempt hm, h, next, hm', if_neg (by simp)]

theorem attempt_of_candidate {m : Matches} {id : NodeId} {pending : List NodeId}
    (hc : m.candidate? t = .ok (some (id, pending))) :
    m.attempt p t = tryAt p t id { m with pending } := by
  rw [attempt, hc]

/-- The calls give what there is to find among the remaining nodes. -/
theorem yields_of_finds (h : t.Descending) {ids : List NodeId} {rs : List Result}
    (hf : Finds p t ids rs) {m : Matches} (hdone : m.done = false)
    (hm : ∀ a ∈ m.pending, a < t.size) (hr : m.remaining t = ids) :
    Yields (Matches.next p t) m rs := by
  induction hf generalizing m with
  | done =>
    have ha : m.attempt p t = .inr (none, { m with done := true }) := by
      rw [attempt, candidate_nil h hr]
    exact .ended (next_of_given hdone ha) (next_of_done rfl)
  | found he _ ih =>
    obtain ⟨pending, hc, hpending, hrest⟩ := candidate_cons h hm hr
    have ha := attempt_of_candidate (p := p) hc
    rw [tryAt, he] at ha
    exact .cons (next_of_given hdone ha) (ih hdone hpending hrest)
  | failed he _ ih | unbound he _ ih =>
    obtain ⟨pending, hc, hpending, hrest⟩ := candidate_cons h hm hr
    have ha := attempt_of_candidate (p := p) hc
    rw [tryAt, he] at ha
    have hn := next_of_passed hdone ha hdone
    exact .congr hn (ih hdone hpending hrest)
  | unsupported he =>
    obtain ⟨pending, hc, hpending, hrest⟩ := candidate_cons h hm hr
    have ha := attempt_of_candidate (p := p) hc
    rw [tryAt, he] at ha
    exact .cons (next_of_given hdone ha) (yields_nil (next_of_done rfl))

end Matches

/-- The nodes that a search from `start` tries: its subtree in pre-order, each node of it once, or
`start` alone. -/
def Tries (t : Tree) (start : NodeId) : Bool → List NodeId → Prop
  | true, ids => t.InPreorder start ids ∧ ids.Nodup ∧ ∀ a, a ∈ ids ↔ t.Covers start a
  | false, ids => ids = [start]

omit [RegexEngine] in
theorem tries_candidates (h : t.WellFormed) {start : NodeId} (hs : start < t.size)
    (recursive : Bool) : ∃ ids, Tries t start recursive ids ∧ (∀ a ∈ ids, a < t.size) ∧
      candidates t start recursive = ids.map .ok ∧
      (Matches.start start recursive).remaining t = ids := by
  have hd := h.descending
  cases recursive with
  | false => exact ⟨[start], rfl, fun a ha => List.mem_singleton.mp ha ▸ hs, rfl, rfl⟩
  | true =>
    have hlt : ∀ a ∈ t.preorder start, a < t.size := fun a ha =>
      (hd.mem_preorder.mp ha).lt_size hd hs
    have hall : Tries t start true (t.preorder start) :=
      ⟨hd.inPreorder_iff.mpr rfl, h.nodup_preorder start, fun _ => hd.mem_preorder⟩
    refine ⟨t.preorder start, hall, hlt, Tree.steps_of_lt hlt, ?_⟩
    exact List.flatMap_singleton _ _

omit [RegexEngine] in
/-- In a tree that was read from a text a search goes by increasing numbers. -/
theorem Tries.increasing (hd : t.Descending) {start : NodeId} (hs : start < t.size)
    {recursive : Bool} {ids : List NodeId} (h : Tries t start recursive ids) {text : String}
    (ht : Tree.parse text = .ok t) : ids.Pairwise (· < ·) := by
  cases recursive with
  | false =>
    obtain rfl : ids = [start] := h
    exact List.pairwise_singleton _ _
  | true =>
    obtain ⟨n, hn⟩ := Tree.range_preorder_of_parse ht hd hs
    rw [hd.inPreorder_iff.mp h.1, hn]
    exact List.pairwise_lt_range'

/-- A search tries its nodes in order and gives exactly what they yield up to the first unsupported
operator, then nothing for ever. Its first result is what one call gives, and in a tree that was
read from a text the matches come by increasing numbers. -/
theorem finds_and_yields (h : t.WellFormed) {start : NodeId} (hs : start < t.size) (p : Pattern)
    (recursive : Bool) :
    ∃ ids, Tries t start recursive ids ∧ Finds p t ids (run p t start recursive) ∧
      Yields (Matches.next p t) (.start start recursive) (run p t start recursive) ∧
      first p t start recursive = ((Matches.start start recursive).next p t).1 ∧
      ∀ text, Tree.parse text = .ok t → Increasing (run p t start recursive) := by
  have hd := h.descending
  obtain ⟨ids, htries, hlt, hc, hr⟩ := tries_candidates h hs recursive
  have hf : Finds p t ids (run p t start recursive) := by
    rw [run, hc]
    exact finds_collect h.linked hlt
  have hy : Yields (Matches.next p t) (.start start recursive) (run p t start recursive) :=
    Matches.yields_of_finds hd hf rfl (fun a ha => List.mem_singleton.mp ha ▸ hs) hr
  exact ⟨ids, htries, hf, hy, hy.first.symm, fun _ ht => hf.increasing (htries.increasing hd hs ht)⟩

end

/-- Whatever has something below it. -/
def inner : Pattern :=
  .node (.capture .any "X") [.related .child (.node .any [])]

def dogsRan : Tree where
  nodes := #[
    ⟨.bare "S", 0, none, [1, 3]⟩,
    ⟨.bare "NP", 1, some 0, [2]⟩,
    ⟨⟨"NN", some "dogs", none, none, none⟩, 2, some 1, []⟩,
    ⟨.bare "VP", 3, some 0, [4]⟩,
    ⟨⟨"VBD", some "ran", none, none, none⟩, 4, some 3, []⟩]
  root := some 0

theorem finds_and_yields_dogsRan :
    dogsRan.WellFormed ∧ 0 < dogsRan.size ∧
      Tree.parse "(S (NP (NN dogs)) (VP (VBD ran)))" = .ok dogsRan ∧
      ∃ ids, Tries dogsRan 0 true ids ∧ Finds inner dogsRan ids (run inner dogsRan 0 true) ∧
        Yields (Matches.next inner dogsRan) (.start 0 true) (run inner dogsRan 0 true) ∧
        first inner dogsRan 0 true = ((Matches.start 0 true).next inner dogsRan).1 ∧
        ∀ text, Tree.parse text = .ok dogsRan → Increasing (run inner dogsRan 0 true) :=
  have h : dogsRan.WellFormed := .of_increasing (by decide) (by decide) (by decide) (by decide)
  ⟨h, by decide, by cbv, finds_and_yields h (by decide) inner true⟩

end TreeQuery.Search
