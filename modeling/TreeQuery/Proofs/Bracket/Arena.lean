import Mathlib.Data.List.Forall2
import TreeQuery.Proofs.Bracket.Grammar
import TreeQuery.Proofs.Outcomes
import TreeQuery.Proofs.Text.Numeral

namespace TreeQuery

namespace Bracket

/-- What a bracket stands for. The second part-of-speech tag, the predicate and the number of
children are not kept. -/
inductive Denotes : Bracket → Constituent → Prop
  | leaf {label word} :
      Denotes (leaf label word) (.node
        { label, word := some word, pos := none, category := none, headIndex := none } [])
  | phrase {label bs cs} : List.Forall₂ Denotes bs cs →
      Denotes (phrase label bs) (.node
        { label := label.getD "", word := none, pos := none, category := none, headIndex := none }
        cs)
  | lexical {category pos formerPos word predicate c} : Category.parse category = .ok c →
      Denotes (lexical category pos formerPos word predicate) (.node
        { label := category, word := some word, pos := some pos, category := some c,
          headIndex := none } [])
  | derived {category head arity bs cs c} {h : UInt64} :
      Nat.ofDigitChars 10 head.toList 0 = h.toNat → Category.parse category = .ok c →
      List.Forall₂ Denotes bs cs →
      Denotes (derived category head arity bs) (.node
        { label := category, word := none, pos := none, category := some c, headIndex := some h }
        cs)

theorem category?_eq_ok {text : String} {c : Category} :
    category? text = .ok c ↔ Category.parse text = .ok c :=
  mapError_eq_ok

theorem headIndex?_eq_ok {text : String} (hn : Numeral.isNumeral text.toList = true) {h : UInt64} :
    headIndex? text = .ok h ↔ Nat.ofDigitChars 10 text.toList 0 = h.toNat := by
  have hread : headIndex? text = .ok h ↔ Numeral.read? text.toList = some h := by
    rw [headIndex?]
    cases Numeral.read? text.toList <;> simp
  rw [hread, Numeral.read?_eq_some]
  exact and_iff_right hn

theorem constituents_eq_ok {bs : List Bracket}
    (h : ∀ b ∈ bs, ∀ {c : Constituent}, b.constituent = .ok c ↔ b.Denotes c)
    {cs : List Constituent} : constituents bs = .ok cs ↔ List.Forall₂ Denotes bs cs := by
  induction bs generalizing cs with
  | nil =>
    rw [constituents, List.forall₂_nil_left_iff]
    exact ⟨fun h => by cases h; rfl, fun h => by rw [h]⟩
  | cons b bs ih =>
    obtain ⟨hb, hrest⟩ := List.forall_mem_cons.mp h
    rw [constituents, List.forall₂_cons_left_iff]
    simp only [bind_eq_ok, hb, ih hrest]
    constructor
    · rintro ⟨c, hc, rest, hcs, he⟩
      cases he
      exact ⟨c, rest, hc, hcs, rfl⟩
    · rintro ⟨c, rest, hc, hcs, rfl⟩
      exact ⟨c, hc, rest, hcs, rfl⟩

/-- The conversion of a proper bracket succeeds exactly if it stands for something. -/
theorem constituent_eq_ok {b : Bracket} (hb : b.Proper) {c : Constituent} :
    b.constituent = .ok c ↔ b.Denotes c := by
  induction hb generalizing c with
  | leaf =>
    constructor
    · intro h
      cases h
      exact .leaf
    · intro h
      cases h
      rfl
  | phrase _ _ _ ih =>
    rw [constituent, bind_eq_ok]
    simp only [constituents_eq_ok ih]
    constructor
    · rintro ⟨cs, hcs, he⟩
      cases he
      exact .phrase hcs
    · intro h
      cases h with
      | phrase hcs => exact ⟨_, hcs, rfl⟩
  | lexical =>
    rw [constituent, bind_eq_ok]
    simp only [category?_eq_ok]
    constructor
    · rintro ⟨category, hcategory, he⟩
      cases he
      exact .lexical hcategory
    · intro h
      cases h with
      | lexical hcategory => exact ⟨_, hcategory, rfl⟩
  | derived _ hhead _ _ _ ih =>
    rw [constituent]
    simp only [bind_eq_ok, constituents_eq_ok ih, category?_eq_ok, headIndex?_eq_ok hhead]
    constructor
    · rintro ⟨h, hh, category, hcategory, cs, hcs, he⟩
      cases he
      exact .derived hh hcategory hcs
    · intro h
      cases h with
      | derived hh hcategory hcs => exact ⟨_, hh, _, hcategory, _, hcs, rfl⟩

end Bracket

namespace Constituent

variable (t : Tree)

mutual

/-- In the arena the subtree has the numbers from the first up to, but without, the last: its
topmost node comes first and the subtrees of its children one after the other. -/
inductive Occupies : Option NodeId → Constituent → NodeId → NodeId → Prop
  | node {parent mark cs children id next} :
      t.get? id = some { mark with id, parent, children } →
      OccupyAll id cs children (id + 1) next →
      Occupies parent (.node mark cs) id next

/-- Subtrees of neighbouring children, given with the numbers of their topmost nodes. -/
inductive OccupyAll : NodeId → List Constituent → List NodeId → NodeId → NodeId → Prop
  | nil {parent id} : OccupyAll parent [] [] id id
  | cons {parent c cs ids id mid next} : Occupies (some parent) c id mid →
      OccupyAll parent cs ids mid next → OccupyAll parent (c :: cs) (id :: ids) id next

end

/-- The arena consists of the nodes of the tree in pre-order. -/
def PreorderArena (c : Constituent) : Prop :=
  t.root = some 0 ∧ Occupies t none c 0 t.size

end Constituent

namespace Tree

/-- These nodes stand in the arena one after the other. -/
def Holds (t : Tree) : NodeId → List Node → Prop
  | _, [] => True
  | id, n :: ns => t.get? id = some n ∧ t.Holds (id + 1) ns

variable {t : Tree} {id : NodeId}

theorem holds_append {ms ns : List Node} :
    t.Holds id (ms ++ ns) ↔ t.Holds id ms ∧ t.Holds (id + ms.length) ns := by
  induction ms generalizing id with
  | nil => simp [Holds]
  | cons m ms ih =>
    rw [List.cons_append, Holds, Holds, ih, List.length_cons, Nat.add_right_comm, and_assoc]
    rfl

theorem holds_iff {ns : List Node} :
    t.Holds id ns ↔ ∀ i < ns.length, t.get? (id + i) = ns[i]? := by
  induction ns generalizing id with
  | nil => simp [Holds]
  | cons n ns ih =>
    rw [Holds, ih]
    constructor
    · rintro ⟨hn, hrest⟩ i hi
      cases i with
      | zero => exact hn
      | succ i =>
        have hget := hrest i (Nat.lt_of_succ_lt_succ hi)
        rwa [Nat.add_right_comm] at hget
    · intro h
      refine ⟨h 0 (Nat.succ_pos _), fun i hi => ?_⟩
      have hget := h (i + 1) (Nat.succ_lt_succ hi)
      rwa [← Nat.add_assoc, Nat.add_right_comm] at hget

/-- Where there are as many nodes as in the list, there are no others. -/
theorem holds_all {ns : List Node} (hsize : t.size = ns.length) :
    t.Holds 0 ns ↔ t.nodes.toList = ns := by
  have hget (i : Nat) : t.get? (0 + i) = t.nodes.toList[i]? := by
    rw [Nat.zero_add, Array.getElem?_toList]
    rfl
  rw [holds_iff]
  constructor
  · intro h
    apply List.ext_getElem?
    intro i
    by_cases hi : i < ns.length
    · rw [← hget, h i hi]
    · have hlen : t.nodes.toList.length ≤ i := by
        rw [Array.length_toList]
        exact Nat.le_trans (Nat.le_of_eq hsize) (Nat.le_of_not_lt hi)
      rw [List.getElem?_eq_none hlen, List.getElem?_eq_none (Nat.le_of_not_lt hi)]
  · rintro rfl i _
    exact hget i

end Tree

namespace Constituent

mutual

theorem length_layout (parent : Option NodeId) (id : NodeId) :
    ∀ c : Constituent, (c.layout parent id).length = c.size
  | node mark cs => by
    rw [layout, List.length_cons, length_layoutAll id (id + 1) cs, size, Nat.add_comm]

theorem length_layoutAll (parent next : NodeId) :
    ∀ cs : List Constituent, (layoutAll parent next cs).length = sizeAll cs
  | [] => rfl
  | c :: cs => by
    rw [layoutAll, List.length_append, length_layout (some parent) next c,
      length_layoutAll parent (next + c.size) cs, sizeAll]

end

variable {t : Tree}

mutual

/-- A subtree has its place in the arena if its nodes stand there, and then it ends after them. -/
theorem occupies_iff (parent : Option NodeId) (id next : NodeId) : ∀ c : Constituent,
    Occupies t parent c id next ↔ t.Holds id (c.layout parent id) ∧ next = id + c.size
  | node mark cs => by
    rw [layout, Tree.Holds, size]
    constructor
    · intro h
      cases h with
      | node hn hcs =>
        obtain ⟨rfl, hholds, rfl⟩ := (occupyAll_iff id _ (id + 1) next cs).mp hcs
        exact ⟨⟨hn, hholds⟩, Nat.add_assoc id 1 _⟩
    · rintro ⟨⟨hn, hholds⟩, rfl⟩
      exact .node hn ((occupyAll_iff id _ (id + 1) _ cs).mpr
        ⟨rfl, hholds, (Nat.add_assoc id 1 _).symm⟩)

theorem occupyAll_iff (parent : NodeId) (ids : List NodeId) (id next : NodeId) :
    ∀ cs : List Constituent, OccupyAll t parent cs ids id next ↔
      ids = starts id cs ∧ t.Holds id (layoutAll parent id cs) ∧ next = id + sizeAll cs
  | [] => by
    constructor
    · intro h
      cases h
      exact ⟨rfl, trivial, rfl⟩
    · rintro ⟨rfl, _, rfl⟩
      exact .nil
  | c :: cs => by
    rw [starts, layoutAll, Tree.holds_append, length_layout, sizeAll]
    constructor
    · intro h
      cases h with
      | cons hc hcs =>
        obtain ⟨hholds, rfl⟩ := (occupies_iff (some parent) id _ c).mp hc
        obtain ⟨rfl, hrest, rfl⟩ := (occupyAll_iff parent _ _ next cs).mp hcs
        exact ⟨rfl, ⟨hholds, hrest⟩, Nat.add_assoc id _ _⟩
    · rintro ⟨rfl, ⟨hholds, hrest⟩, rfl⟩
      exact .cons ((occupies_iff (some parent) id _ c).mpr ⟨hholds, rfl⟩)
        ((occupyAll_iff parent _ _ _ cs).mpr ⟨rfl, hrest, (Nat.add_assoc id _ _).symm⟩)

end

/-- There is one arena in pre-order, the one that is laid out. -/
theorem preorderArena_iff {c : Constituent} : PreorderArena t c ↔ t = c.toTree := by
  rw [PreorderArena, occupies_iff, Nat.zero_add]
  constructor
  · rintro ⟨hroot, hholds, hsize⟩
    rw [← length_layout none 0] at hsize
    have hnodes : t.nodes.toList = c.layout none 0 := (Tree.holds_all hsize).mp hholds
    obtain ⟨nodes, root⟩ := t
    obtain rfl : root = some 0 := hroot
    rw [toTree, ← hnodes, Array.toArray_toList]
  · rintro rfl
    have hsize : c.toTree.size = (c.layout none 0).length := List.size_toArray
    exact ⟨rfl, (Tree.holds_all hsize).mpr rfl, hsize.trans (length_layout none 0 c)⟩

end Constituent

theorem Tree.ofChars_eq_ok {cs : List Char} {t : Tree} : Tree.ofChars cs = .ok t ↔
    ∃ (b : Bracket) (c : Constituent), b.Spelled cs ∧ b.Denotes c ∧ t = c.toTree := by
  rw [Tree.ofChars]
  constructor
  · intro h
    cases hb : Bracket.ofText? cs with
    | none =>
      rw [hb] at h
      cases h
    | some b =>
      rw [hb] at h
      obtain ⟨c, hc, rfl⟩ := map_eq_ok.mp h
      have hspelled : b.Spelled cs := Bracket.ofText?_eq_some.mp hb
      exact ⟨b, c, hspelled, (Bracket.constituent_eq_ok hspelled.1).mp hc, rfl⟩
  · rintro ⟨b, c, hspelled, hdenotes, rfl⟩
    rw [Bracket.ofText?_eq_some.mpr hspelled]
    simp only
    rw [(Bracket.constituent_eq_ok hspelled.1).mpr hdenotes]
    rfl

theorem Tree.parse_eq_ok {text : String} {t : Tree} :
    Tree.parse text = .ok t ↔ Tree.ofChars text.toList = .ok t :=
  mapError_eq_ok

/-- A text is read as a tree exactly if it spells brackets that stand for something, and the tree is
the arena of that in pre-order. Blanks may also stand before and after the outermost bracket. -/
theorem Tree.parse_ok_iff_spelled {text : String} {t : Tree} :
    Tree.parse text = .ok t ↔
      ∃ (b : Bracket) (c : Constituent),
        b.Spelled text.toList ∧ b.Denotes c ∧ c.PreorderArena t := by
  rw [Tree.parse, Tree.parseAt, mapError_eq_ok, Tree.ofChars]
  constructor
  · intro h
    cases hb : Bracket.ofText? text.toList with
    | none =>
      rw [hb] at h
      cases h
    | some b =>
      rw [hb] at h
      obtain ⟨c, hc, rfl⟩ := map_eq_ok.mp h
      have hspelled : b.Spelled text.toList := Bracket.ofText?_eq_some.mp hb
      exact ⟨b, c, hspelled, (Bracket.constituent_eq_ok hspelled.1).mp hc,
        Constituent.preorderArena_iff.mpr rfl⟩
  · rintro ⟨b, c, hspelled, hdenotes, harena⟩
    rw [Bracket.ofText?_eq_some.mpr hspelled]
    simp only
    rw [(Bracket.constituent_eq_ok hspelled.1).mpr hdenotes,
      Constituent.preorderArena_iff.mp harena]
    rfl

end TreeQuery
