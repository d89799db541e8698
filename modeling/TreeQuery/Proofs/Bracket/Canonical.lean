import TreeQuery.Proofs.Bracket.Numbering

namespace TreeQuery

/-- What a node says of itself that was made from a bracket. -/
structure Node.Plain (n : Node) : Prop where
  word_iff : n.word.isSome = true ↔ n.children = []
  category_eq : ∀ {c}, n.category = some c → Category.parse n.label = .ok c
  leaf_of_pos : ∀ {pos}, n.pos = some pos → n.children = []
  inner_of_head : ∀ {i}, n.headIndex = some i → n.children ≠ []

/-- The arena of one tree in pre-order, as it is read from a text. -/
structure Tree.Canonical (t : Tree) : Prop where
  root_eq : t.root = some 0
  root_lt : 0 < t.size
  parent_root : t.parent? 0 = none
  id_eq : ∀ {id n}, t.get? id = some n → n.id = id
  exists_parent : ∀ {id}, 0 < id → id < t.size →
    ∃ p < id, t.parent? id = some p ∧ (t.children p).count id = 1
  parent_of_child : ∀ {p c}, t.Child p c → t.parent? c = some p
  increasing : ∀ p, (t.children p).Pairwise (· < ·)
  preorder_eq : t.preorder 0 = List.range t.size
  plain : ∀ {id n}, t.get? id = some n → n.Plain

namespace Bracket

/-- Something that a bracket stands for. -/
def Writes (c : Constituent) : Prop :=
  ∃ b : Bracket, b.Proper ∧ b.Denotes c

theorem exists_of_mem {bs : List Bracket} {cs : List Constituent} (h : List.Forall₂ Denotes bs cs)
    {c : Constituent} (hc : c ∈ cs) : ∃ b ∈ bs, b.Denotes c := by
  induction h with
  | nil => exact absurd hc List.not_mem_nil
  | cons hb _ ih =>
    rcases List.mem_cons.mp hc with rfl | hc
    · exact ⟨_, List.mem_cons_self, hb⟩
    · obtain ⟨b, hm, hd⟩ := ih hc
      exact ⟨b, List.mem_cons_of_mem _ hm, hd⟩

theorem writes_of_mem {bs : List Bracket} {cs : List Constituent} (hbs : ∀ b ∈ bs, b.Proper)
    (h : List.Forall₂ Denotes bs cs) : ∀ c ∈ cs, Writes c := by
  intro c hc
  obtain ⟨b, hb, hd⟩ := exists_of_mem h hc
  exact ⟨b, hbs b hb, hd⟩

/-- Parts of what a bracket stands for are what its children stand for. -/
theorem hereditary_writes : Constituent.Hereditary Writes := by
  rintro mark cs ⟨b, hb, hd⟩
  cases hd with
  | leaf | lexical => exact fun c hc => absurd hc List.not_mem_nil
  | phrase hcs =>
    cases hb with
    | phrase _ _ hbs => exact writes_of_mem hbs hcs
  | derived _ _ hcs =>
    cases hb with
    | derived _ _ _ _ hbs => exact writes_of_mem hbs hcs

theorem ne_nil_of_forall₂ {bs : List Bracket} {cs : List Constituent} (h : bs ≠ [])
    (hcs : List.Forall₂ Denotes bs cs) : cs ≠ [] := by
  rintro rfl
  exact h (List.forall₂_nil_right_iff.mp hcs)

/-- Where the children take up their places, the node is plain. -/
theorem Writes.plain {mark : Mark} {cs : List Constituent} (h : Writes (.node mark cs))
    {id : NodeId} {parent : Option NodeId} {children : List NodeId}
    (hchildren : children = [] ↔ cs = []) :
    Node.Plain { mark with id, parent, children } := by
  obtain ⟨b, hb, hd⟩ := h
  cases hd with
  | leaf => exact ⟨by simp [hchildren], nofun, nofun, nofun⟩
  | phrase hcs =>
    cases hb with
    | phrase _ hne _ =>
      have hne := ne_nil_of_forall₂ hne hcs
      exact ⟨by simp [hchildren, hne], nofun, nofun, nofun⟩
  | lexical hc =>
    refine ⟨by simp [hchildren], fun he => ?_, fun _ => hchildren.mpr rfl, nofun⟩
    cases he
    exact hc
  | derived _ hc hcs =>
    cases hb with
    | derived _ _ _ hne _ =>
      have hne := ne_nil_of_forall₂ hne hcs
      refine ⟨by simp [hchildren, hne], fun he => ?_, nofun, fun _ he => hne (hchildren.mp he)⟩
      cases he
      exact hc

end Bracket

namespace Constituent

variable {t : Tree}

/-- The topmost nodes of neighbouring subtrees have increasing numbers, and the same parent. -/
theorem OccupyAll.topmost {parent : NodeId} {id next : Nat} {ids : List NodeId}
    {cs : List Constituent} (h : OccupyAll t parent cs ids id next) :
    ids.Pairwise (· < ·) ∧
      ∀ x ∈ ids, id ≤ x ∧ x < next ∧ ∃ c next', Occupies t (some parent) c x next' := by
  induction cs generalizing id ids with
  | nil =>
    cases h
    exact ⟨.nil, fun x hx => absurd hx List.not_mem_nil⟩
  | cons c cs ih =>
    cases h with
    | @cons _ _ _ _ ids mid _ hc hcs =>
      have hlt : id < mid := hc.range.1
      have hle : mid ≤ next := hcs.range.1
      obtain ⟨hincreasing, hall⟩ := ih hcs
      refine ⟨.cons (fun x hx => ?_) hincreasing, List.forall_mem_cons.mpr ⟨?_, fun x hx => ?_⟩⟩
      · exact Nat.lt_of_lt_of_le hlt (hall x hx).1
      · exact ⟨Nat.le_refl id, Nat.lt_of_lt_of_le hlt hle, c, mid, hc⟩
      · obtain ⟨hx, hx', hplace⟩ := hall x hx
        exact ⟨Nat.le_trans (Nat.le_of_lt hlt) hx, hx', hplace⟩

theorem OccupyAll.nil_iff {parent : NodeId} {id next : Nat} {ids : List NodeId}
    {cs : List Constituent} (h : OccupyAll t parent cs ids id next) : ids = [] ↔ cs = [] := by
  cases h <;> simp

theorem Occupies.parent_eq {parent : Option NodeId} {c : Constituent} {id next : Nat}
    (h : Occupies t parent c id next) : t.parent? id = parent := by
  cases h with
  | node hn _ => exact Tree.parent_of_get hn

namespace PreorderArena

variable {c : Constituent} (h : PreorderArena t c)

include h

/-- Each number that has a node belongs to the topmost node of a part. -/
theorem exists_place {P : Constituent → Prop} (hP : Hereditary P) (hc : P c) {id : NodeId}
    (hid : id < t.size) : ∃ parent' c' next', Occupies t parent' c' id next' ∧ P c' ∧
      (id = 0 ∧ parent' = none ∨ ∃ p < id, parent' = some p ∧ t.Child p id) :=
  h.2.exists_place hP (Nat.zero_le id) hid hc

theorem place {id : NodeId} (hid : id < t.size) :
    ∃ parent' c' next', Occupies t parent' c' id next' := by
  obtain ⟨parent', c', next', hplace, _⟩ := h.exists_place hereditary_true trivial hid
  exact ⟨parent', c', next', hplace⟩

theorem id_eq {id : NodeId} {n : Node} (hn : t.get? id = some n) : n.id = id := by
  obtain ⟨_, _, _, hplace⟩ := h.place (Tree.lt_size_iff.mpr ⟨n, hn⟩)
  cases hplace with
  | node hn' _ =>
    rw [hn] at hn'
    cases hn'
    rfl

theorem increasing (id : NodeId) : (t.children id).Pairwise (· < ·) := by
  by_cases hid : id < t.size
  · obtain ⟨_, _, _, hplace⟩ := h.place hid
    cases hplace with
    | node hn hcs =>
      rw [Tree.children_of_get hn]
      exact hcs.topmost.1
  · have hno : t.children id = [] :=
      List.eq_nil_iff_forall_not_mem.mpr fun _ hx => hid (Tree.Child.lt_size hx)
    rw [hno]
    exact .nil

/-- A child has a larger number than its parent. -/
theorem parent_of_child {p x : NodeId} (hx : t.Child p x) : p < x ∧ t.parent? x = some p := by
  obtain ⟨_, _, _, hplace⟩ := h.place hx.lt_size
  cases hplace with
  | node hn hcs =>
    rw [Tree.Child, Tree.children_of_get hn] at hx
    obtain ⟨hlt, _, _, _, hchild⟩ := hcs.topmost.2 x hx
    exact ⟨hlt, hchild.parent_eq⟩

theorem parent_root : t.parent? 0 = none :=
  h.2.parent_eq

theorem exists_parent {id : NodeId} (hpos : 0 < id) (hid : id < t.size) :
    ∃ p < id, t.parent? id = some p ∧ t.Child p id := by
  obtain ⟨_, _, _, hplace, _, ⟨he, _⟩ | ⟨p, hp, rfl, hchild⟩⟩ :=
    h.exists_place hereditary_true trivial hid
  · exact absurd he (Nat.ne_of_gt hpos)
  · exact ⟨p, hp, hplace.parent_eq, hchild⟩

theorem nodup_children (p : NodeId) : (t.children p).Nodup :=
  (h.increasing p).imp Nat.ne_of_lt

theorem count_child (p x : NodeId) :
    (t.children p).count x = if t.parent? x = some p then 1 else 0 := by
  split
  · rename_i hp
    have hpos : 0 < x := by
      apply Nat.pos_of_ne_zero
      rintro rfl
      rw [h.parent_root] at hp
      cases hp
    obtain ⟨q, _, hq, hchild⟩ := h.exists_parent hpos (Tree.lt_size_of_parent hp)
    obtain rfl : q = p := Option.some.inj (hq.symm.trans hp)
    exact List.count_eq_one_of_mem (h.nodup_children q) hchild
  · rename_i hp
    exact List.count_eq_zero.mpr fun hx => hp (h.parent_of_child hx).2

theorem wellFormed : t.WellFormed where
  id_eq := h.id_eq
  count_child := h.count_child
  acyclic := Tree.acyclic_of_lt fun hx => (h.parent_of_child hx).1

theorem preorder_eq : t.preorder 0 = List.range t.size := by
  have hp : t.InPreorder 0 (List.range' 0 (t.size - 0)) := h.2.range.2
  rw [List.range_eq_range', ← h.wellFormed.descending.inPreorder_iff.mp hp, Nat.sub_zero]

theorem plain (hc : Bracket.Writes c) {id : NodeId} {n : Node} (hn : t.get? id = some n) :
    n.Plain := by
  obtain ⟨_, _, _, hplace, hwrites, _⟩ :=
    h.exists_place Bracket.hereditary_writes hc (Tree.lt_size_iff.mpr ⟨n, hn⟩)
  cases hplace with
  | node hn' hcs =>
    rw [hn] at hn'
    cases hn'
    exact hwrites.plain hcs.nil_iff

theorem canonical (hc : Bracket.Writes c) : t.Canonical where
  root_eq := h.1
  root_lt := h.2.range.1
  parent_root := h.parent_root
  id_eq := h.id_eq
  exists_parent := by
    intro id hpos hid
    obtain ⟨p, hp, hparent, hchild⟩ := h.exists_parent hpos hid
    exact ⟨p, hp, hparent, List.count_eq_one_of_mem (h.nodup_children p) hchild⟩
  parent_of_child hx := (h.parent_of_child hx).2
  increasing := h.increasing
  preorder_eq := h.preorder_eq
  plain := h.plain hc

end PreorderArena

end Constituent

namespace Tree

variable {cs : List Char} {t : Tree}

theorem wellFormed_of_ofChars (h : Tree.ofChars cs = .ok t) : t.WellFormed := by
  obtain ⟨_, c, _, _, rfl⟩ := ofChars_eq_ok.mp h
  have harena : c.PreorderArena c.toTree := Constituent.preorderArena_iff.mpr rfl
  exact harena.wellFormed

theorem canonical_of_ofChars (h : Tree.ofChars cs = .ok t) : t.Canonical := by
  obtain ⟨b, c, hb, hc, rfl⟩ := ofChars_eq_ok.mp h
  have harena : c.PreorderArena c.toTree := Constituent.preorderArena_iff.mpr rfl
  exact harena.canonical ⟨b, hb.1, hc⟩

end Tree

/-- A derivation in which a plain bracket has strayed. -/
def derivation : Tree where
  nodes := #[
    ⟨⟨"S", none, none, some (.atom "S" []), some 1⟩, 0, none, [1, 2]⟩,
    ⟨⟨"NP", some "dogs", some "NNS", some (.atom "NP" []), none⟩, 1, some 0, []⟩,
    ⟨.bare "", 2, some 0, [3]⟩,
    ⟨⟨"VBD", some "ran", none, none, none⟩, 3, some 2, []⟩]
  root := some 0

end TreeQuery
