import TreeQuery.Proofs.Bracket.Canonical
import TreeQuery.Tree.Bracketed

namespace TreeQuery

namespace Mark

def stripped (m : Mark) : Mark :=
  { m with pos := none, category := none, headIndex := none }

/-- Neither the label nor the word has a parenthesis. -/
def Parenless (m : Mark) : Prop :=
  ∀ s ∈ m.label :: m.word.toList, '(' ∉ s.toList ∧ ')' ∉ s.toList

instance (m : Mark) : Decidable m.Parenless :=
  inferInstanceAs (Decidable (∀ s ∈ m.label :: m.word.toList, '(' ∉ s.toList ∧ ')' ∉ s.toList))

/-- The label that is seen in a bracket. -/
def label? (m : Mark) : Option String :=
  if m.label = "" then none else some m.label

theorem getD_label? (m : Mark) : m.label?.getD "" = m.label := by
  rw [label?]
  split
  · rename_i hempty
    rw [hempty]
    rfl
  · rfl

theorem mem_label? {m : Mark} {l : String} : l ∈ m.label? ↔ m.label ≠ "" ∧ m.label = l := by
  rw [label?]
  split
  · rename_i hempty
    simp [hempty]
  · rename_i hne
    simp [hne]

end Mark

def Node.stripped (n : Node) : Node :=
  { n with pos := none, category := none, headIndex := none }

/-- The same tree with nothing but its labels and words. -/
def Tree.stripped (t : Tree) : Tree :=
  { t with nodes := t.nodes.map Node.stripped }

theorem Tree.get?_stripped (t : Tree) (id : NodeId) :
    t.stripped.get? id = (t.get? id).map Node.stripped :=
  Array.getElem?_map

theorem Tree.category_of_stripped {t : Tree} (h : t.stripped = t) {id : NodeId} {n : Node}
    (hn : t.get? id = some n) : n.category = none := by
  have hmark : t.stripped.get? id = some n.stripped := by
    rw [get?_stripped, hn]
    rfl
  rw [h, hn] at hmark
  rw [Option.some.inj hmark]
  rfl

/-- No category begins with an angle bracket. -/
theorem Category.head_of_parse {text : String} {d : Category} (h : parse text = .ok d) :
    text.toList.head? ≠ some '<' := by
  intro hhead
  obtain ⟨rest, he⟩ := List.head?_eq_some_iff.mp hhead
  have hnone : ofText? ('<' :: rest) = none := by
    rw [ofText?, Token.cut?]
    rfl
  rw [parse, he, hnone] at h
  cases h

/-- The notation without headers. -/
inductive Bracket.Headerless : Bracket → Prop
  | leaf {label word} : Headerless (leaf label word)
  | phrase {label children} : (∀ b ∈ children, Headerless b) → Headerless (phrase label children)

namespace Constituent

mutual

def stripped : Constituent → Constituent
  | node mark children => node mark.stripped (strippedAll children)

def strippedAll : List Constituent → List Constituent
  | [] => []
  | c :: cs => c.stripped :: strippedAll cs

end

mutual

/-- The bracket that is printed: that of a leaf where there is a word. -/
def toBracket : Constituent → Bracket
  | node mark children =>
    match mark.word with
    | some word => .leaf mark.label word
    | none => .phrase mark.label? (toBrackets children)

def toBrackets : List Constituent → List Bracket
  | [] => []
  | c :: cs => c.toBracket :: toBrackets cs

end

theorem strippedAll_eq (cs : List Constituent) : strippedAll cs = cs.map stripped := by
  induction cs with
  | nil => rfl
  | cons c cs ih => rw [strippedAll, ih, List.map_cons]

theorem toBrackets_eq (cs : List Constituent) : toBrackets cs = cs.map toBracket := by
  induction cs with
  | nil => rfl
  | cons c cs ih => rw [toBrackets, ih, List.map_cons]

theorem isWord_of_isField {s : String} (hf : Bracket.IsField s)
    (hp : '(' ∉ s.toList ∧ ')' ∉ s.toList) : Bracket.IsWord s := by
  refine ⟨hf.1, fun c hc => ⟨(hf.2 c hc).1, ?_, ?_⟩⟩
  · rintro rfl
    exact hp.1 hc
  · rintro rfl
    exact hp.2 hc

/-- The labels and words can be told apart in a plain bracket. An inner node need not have a
label. -/
inductive Printable : Constituent → Prop
  | leaf {mark word} : mark.word = some word → Bracket.IsLabel mark.label → Bracket.IsWord word →
      Printable (node mark [])
  | inner {mark cs} : mark.word = none → (∀ l ∈ mark.label?, Bracket.IsLabel l) → cs ≠ [] →
      (∀ c ∈ cs, Printable c) → Printable (node mark cs)

variable {t : Tree} {c : Constituent}

theorem Printable.proper (h : Printable c) : c.toBracket.Proper := by
  induction h with
  | leaf hw hlabel hword =>
    rw [toBracket, hw]
    exact .leaf hlabel hword
  | inner hw hlabel hne _ ih =>
    rw [toBracket, hw, toBrackets_eq]
    exact .phrase hlabel (mt List.map_eq_nil_iff.mp hne) (List.forall_mem_map.mpr ih)

/-- What the plain bracket stands for has the labels and words, and nothing more. -/
theorem Printable.denotes (h : Printable c) : c.toBracket.Denotes c.stripped := by
  induction h with
  | leaf hw _ _ =>
    rw [toBracket, hw, stripped, Mark.stripped, hw]
    exact .leaf
  | @inner mark cs hw _ _ _ ih =>
    have hchildren : List.Forall₂ Bracket.Denotes (cs.map toBracket) (cs.map stripped) := by
      rw [List.forall₂_map_left_iff, List.forall₂_map_right_iff, List.forall₂_same]
      exact ih
    have hphrase : (Bracket.phrase mark.label? (cs.map toBracket)).Denotes _ := .phrase hchildren
    rw [Mark.getD_label?] at hphrase
    rw [toBracket, hw, stripped, Mark.stripped, hw, toBrackets_eq, strippedAll_eq]
    exact hphrase

/-- Each of the neighbouring subtrees has its place. -/
theorem OccupyAll.exists_occupies {parent : NodeId} {id next : Nat} {ids : List NodeId}
    {cs : List Constituent} (h : OccupyAll t parent cs ids id next) :
    ∀ c ∈ cs, ∃ id' next', Occupies t (some parent) c id' next' := by
  induction cs generalizing id ids with
  | nil => exact fun c hc => absurd hc List.not_mem_nil
  | cons c cs ih =>
    cases h with
    | cons hc hcs => exact List.forall_mem_cons.mpr ⟨⟨_, _, hc⟩, ih hcs⟩

/-- A category can be seen as a label, unless it has parentheses. -/
theorem isLabel_of_category {category : String} (hf : Bracket.IsField category) {d : Category}
    (hd : Category.parse category = .ok d)
    (hp : '(' ∉ category.toList ∧ ')' ∉ category.toList) : Bracket.IsLabel category :=
  ⟨isWord_of_isField hf hp, Category.head_of_parse hd⟩

theorem printable_all {bs : List Bracket} {cs : List Constituent}
    (h : ∀ b ∈ bs, ∀ {c : Constituent}, b.Denotes c → ∀ {parent : Option NodeId} {id next : Nat},
      Occupies t parent c id next → Printable c)
    (hcs : List.Forall₂ Bracket.Denotes bs cs) {parent : NodeId} {ids : List NodeId}
    {id next : Nat} (hall : OccupyAll t parent cs ids id next) : ∀ c ∈ cs, Printable c := by
  intro c hc
  obtain ⟨b, hb, hd⟩ := Bracket.exists_of_mem hcs hc
  obtain ⟨_, _, hplace⟩ := hall.exists_occupies c hc
  exact h b hb hd hplace

/-- What has been read can be printed, unless a derivation has labels or words with parentheses. -/
theorem printable_of_denotes {b : Bracket} (hb : b.Proper) (hd : b.Denotes c)
    {parent : Option NodeId} {id next : Nat} (h : Occupies t parent c id next)
    (ht : ∀ {id n}, t.get? id = some n → n.category ≠ none → n.Parenless) : Printable c := by
  induction hb generalizing c parent id next with
  | leaf hlabel hword =>
    cases hd
    cases h
    exact .leaf rfl hlabel hword
  | @phrase label _ hlabel hne _ ih =>
    cases hd with
    | phrase hcs =>
      cases h with
      | node _ hall =>
        refine .inner rfl (fun l hl => ?_) (Bracket.ne_nil_of_forall₂ hne hcs)
          (printable_all ih hcs hall)
        obtain ⟨hseen, rfl⟩ := Mark.mem_label?.mp hl
        cases label with
        | none => exact absurd rfl hseen
        | some l => exact hlabel l rfl
  | lexical hcategory _ _ hword _ =>
    cases hd with
    | lexical hc =>
      cases h with
      | node hn _ =>
        obtain ⟨hlabel, hw⟩ := List.forall_mem_cons.mp (ht hn (by simp))
        exact .leaf rfl (isLabel_of_category hcategory hc hlabel)
          (isWord_of_isField hword (hw _ (by simp)))
  | derived hcategory _ _ hne _ ih =>
    cases hd with
    | derived _ hc hcs =>
      cases h with
      | node hn hall =>
        obtain ⟨hlabel, _⟩ := List.forall_mem_cons.mp (ht hn (by simp))
        refine .inner rfl (fun l hl => ?_) (Bracket.ne_nil_of_forall₂ hne hcs)
          (printable_all ih hcs hall)
        obtain ⟨_, rfl⟩ := Mark.mem_label?.mp hl
        exact isLabel_of_category hcategory hc hlabel

theorem spaced_leaf {label word : String} {ls : List Lexeme} {following : List Char}
    (hs : Spaced ls following) :
    Spaced ((Bracket.leaf label word).lexemes ++ ls)
      ('(' :: (label.toList ++ ' ' :: (word.toList ++ ')' :: following))) := by
  have hclose : Spaced (.sign ")" :: ls) (')' :: following) := .sign Text.blanks_nil hs
  have hgap : Text.Blanks [' '] := .cons rfl Text.blanks_nil
  have hword : Spaced (.text word :: .sign ")" :: ls) (' ' :: (word.toList ++ ')' :: following)) :=
    .text hgap hclose nofun
  have hlabel := Spaced.text (s := label) Text.blanks_nil hword fun _ => ⟨' ', _, rfl, rfl⟩
  exact .sign Text.blanks_nil hlabel

/-- The children begin with a sign, so that the label needs no blank after it. -/
theorem spaced_phrase {mark : Mark} {bs : List Bracket} (hne : bs ≠ []) {ls : List Lexeme}
    {inside : List Char} (hs : Spaced (Bracket.lexemesAll bs ++ .sign ")" :: ls) inside) :
    Spaced ((Bracket.phrase mark.label? bs).lexemes ++ ls)
      ('(' :: (mark.label.toList ++ inside)) := by
  have hsign : ¬ StartsText (Bracket.lexemesAll bs ++ .sign ")" :: ls) := by
    rintro ⟨s, more, he⟩
    cases bs with
    | nil => exact hne rfl
    | cons b bs => cases b <;> cases he
  rw [Bracket.lexemes, List.cons_append, List.append_assoc, List.cons_append, List.append_assoc]
  refine .sign Text.blanks_nil ?_
  rw [Mark.label?]
  split
  · rename_i hempty
    rw [hempty]
    exact hs
  · exact .text Text.blanks_nil hs fun ht => absurd ht hsign

/-- Wherever the subtree stands, its plain bracket is written in front of what follows, if there are
as many levels as nodes. -/
def Written (t : Tree) (c : Constituent) : Prop :=
  ∀ {parent : Option NodeId} {id next depth : Nat}, Occupies t parent c id next →
    next ≤ id + depth → ∀ {ls following}, Spaced ls following →
      ∃ text, t.writeBracketed depth id following = .ok text ∧
        Spaced (c.toBracket.lexemes ++ ls) text

/-- Neighbouring subtrees are written from the last to the first, with a space before each. -/
theorem exists_written_all {cs : List Constituent} (hw : ∀ c ∈ cs, Written t c) {parent : NodeId}
    {ids : List NodeId} {id next depth : Nat} (h : OccupyAll t parent cs ids id next)
    (hdepth : next ≤ id + depth) {ls : List Lexeme} {following : List Char}
    (hs : Spaced ls following) :
    ∃ text,
      ids.foldrM (fun child cs => (t.writeBracketed depth child cs).map (' ' :: ·)) following =
        .ok text ∧ Spaced (Bracket.lexemesAll (toBrackets cs) ++ ls) text := by
  induction cs generalizing id ids with
  | nil =>
    cases h
    exact ⟨following, rfl, hs⟩
  | cons c cs ih =>
    obtain ⟨hc, hrest⟩ := List.forall_mem_cons.mp hw
    cases h with
    | @cons _ _ _ _ _ mid _ hfirst hcs =>
      have hlt : id < mid := hfirst.range.1
      have hle : mid ≤ next := hcs.range.1
      obtain ⟨after, hafter, hspaced⟩ := ih hrest hcs (by omega)
      have hmid : mid ≤ id + depth := Nat.le_trans hle hdepth
      obtain ⟨text, htext, hspaced⟩ := hc hfirst hmid hspaced
      refine ⟨' ' :: text, ?_, ?_⟩
      · rw [List.foldrM_cons, hafter]
        exact map_eq_ok.mpr ⟨text, htext, rfl⟩
      · rw [toBrackets, Bracket.lexemesAll, List.append_assoc]
        exact hspaced.blanks (.cons rfl Text.blanks_nil)

theorem writeBracketed_succ {id : NodeId} {n : Node} (hn : t.get? id = some n) {depth : Nat}
    {following inside : List Char}
    (h : n.children.foldrM (fun child cs => (t.writeBracketed depth child cs).map (' ' :: ·))
      (')' :: following) = .ok inside) :
    t.writeBracketed (depth + 1) id following =
      .ok ('(' :: n.label.toList ++
        (match n.leafWord? with
          | some w => ' ' :: w.toList
          | none => []) ++ inside) := by
  rw [Tree.writeBracketed, Tree.get, hn]
  exact bind_eq_ok.mpr ⟨n, rfl, bind_eq_ok.mpr ⟨inside, h, rfl⟩⟩

theorem Printable.written (hc : Printable c) : Written t c := by
  intro parent id next depth h hdepth ls following hs
  induction hc generalizing parent id next depth ls following with
  | leaf hw _ _ =>
    cases depth with
    | zero => exact absurd h.range.1 (Nat.not_lt.mpr hdepth)
    | succ depth =>
      cases h with
      | node hn hall =>
        cases hall
        refine ⟨_, writeBracketed_succ hn rfl, ?_⟩
        simpa [toBracket, hw, Node.leafWord?, Node.isLeaf] using spaced_leaf hs
  | @inner mark cs hw _ hne _ ih =>
    cases depth with
    | zero => exact absurd h.range.1 (Nat.not_lt.mpr hdepth)
    | succ depth =>
      cases h with
      | node hn hall =>
        have hcs : ∀ c ∈ cs, Written t c :=
          fun c hc _ _ _ _ hplace hle _ _ hs => ih c hc hplace hle hs
        have hbrackets : toBrackets cs ≠ [] := by
          rw [toBrackets_eq]
          exact mt List.map_eq_nil_iff.mp hne
        have hclose : Spaced (.sign ")" :: ls) (')' :: following) := .sign Text.blanks_nil hs
        have hbelow : next ≤ id + 1 + depth := by omega
        obtain ⟨inside, hinside, hspaced⟩ := exists_written_all hcs hall hbelow hclose
        refine ⟨_, writeBracketed_succ hn hinside, ?_⟩
        simpa [toBracket, hw, Node.leafWord?] using spaced_phrase hbrackets hspaced

mutual

/-- Nothing changes its place when nodes are stripped. -/
theorem Occupies.stripped {parent : Option NodeId} {id next : Nat} :
    ∀ {c : Constituent}, Occupies t parent c id next → Occupies t.stripped parent c.stripped id next
  | node mark cs, h => by
    cases h with
    | node hn hcs =>
      rw [Constituent.stripped]
      refine .node ?_ hcs.stripped
      rw [Tree.get?_stripped, hn]
      rfl

theorem OccupyAll.stripped {parent : NodeId} {ids : List NodeId} {id next : Nat} :
    ∀ {cs : List Constituent}, OccupyAll t parent cs ids id next →
      OccupyAll t.stripped parent (strippedAll cs) ids id next
  | [], h => by
    cases h
    exact .nil
  | c :: cs, h => by
    cases h with
    | cons hc hcs => exact .cons hc.stripped hcs.stripped

end

theorem PreorderArena.stripped (h : PreorderArena t c) : PreorderArena t.stripped c.stripped := by
  have hsize : t.stripped.size = t.size := Array.size_map
  refine ⟨h.1, ?_⟩
  rw [hsize]
  exact h.2.stripped

/-- What stands in brackets without headers has nothing but labels and words. -/
theorem stripped_of_headerless {b : Bracket} (hb : b.Headerless) (hd : b.Denotes c) :
    c.stripped = c := by
  induction hb generalizing c with
  | leaf =>
    cases hd
    rfl
  | phrase _ ih =>
    cases hd with
    | @phrase label bs cs hcs =>
      have hsame : ∀ c ∈ cs, c.stripped = c := by
        intro c hc
        obtain ⟨b, hb, hbc⟩ := Bracket.exists_of_mem hcs hc
        exact ih b hb hbc
      rw [stripped, strippedAll_eq, (List.map_congr_left hsame).trans (List.map_id cs)]
      rfl

end Constituent

namespace Tree

variable {t : Tree}

theorem exists_printed {b : Bracket} (hb : b.Proper) {c : Constituent} (hd : b.Denotes c)
    (h : c.PreorderArena t)
    (ht : ∀ {id n}, t.get? id = some n → n.category ≠ none → n.Parenless) :
    ∃ printed, t.bracketed 0 = .ok printed ∧ Tree.parse printed = .ok t.stripped := by
  have hprintable : c.Printable := Constituent.printable_of_denotes hb hd h.2 ht
  have hdepth : t.size ≤ 0 + (t.size + 1) := by omega
  have hend : Spaced [] [] := .done Text.blanks_nil
  obtain ⟨cs, hcs, hspaced⟩ := hprintable.written h.2 hdepth hend
  rw [List.append_nil] at hspaced
  refine ⟨.ofList cs, map_eq_ok.mpr ⟨cs, hcs, rfl⟩, parse_eq_ok.mpr (ofChars_eq_ok.mpr ?_)⟩
  refine ⟨c.toBracket, c.stripped, ⟨hprintable.proper, ?_⟩, hprintable.denotes,
    Constituent.preorderArena_iff.mp h.stripped⟩
  rwa [String.toList_ofList]

/-- A tree without parentheses in its labels and words is printed as a text that reads as the same
tree without its tags, categories and heads. What was read from a text without headers is printed
so that it reads as the very same tree. -/
theorem parse_bracketed {text : String} (h : Tree.parse text = .ok t) :
    ((∀ {id n}, t.get? id = some n → n.Parenless) →
      ∃ printed, t.bracketed 0 = .ok printed ∧ Tree.parse printed = .ok t.stripped) ∧
    (∀ {b : Bracket}, b.Spelled text.toList → b.Headerless →
      ∃ printed, t.bracketed 0 = .ok printed ∧ Tree.parse printed = .ok t) := by
  obtain ⟨b, c, hb, hd, hc⟩ := ofChars_eq_ok.mp (parse_eq_ok.mp h)
  have harena : c.PreorderArena t := Constituent.preorderArena_iff.mpr hc
  refine ⟨fun ht => exists_printed hb.1 hd harena fun hn _ => ht hn, fun {b'} hb' hplain => ?_⟩
  obtain rfl := hb.unique hb'
  have hsame : t.stripped = t := by
    have hstripped := harena.stripped
    rw [Constituent.stripped_of_headerless hplain hd] at hstripped
    rw [Constituent.preorderArena_iff.mp hstripped, ← hc]
  have hprinted := exists_printed hb.1 hd harena fun hn hcategory =>
    absurd (category_of_stripped hsame hn) hcategory
  rwa [hsame] at hprinted

/-- Words, labels and categories without parentheses, printed once with a header and once without
any. -/
theorem parse_bracketed_derivation :
    Tree.parse "(<T S 1 2> (<L NP NNS NNS dogs>) ((VBD ran)))" = .ok derivation ∧
      (∀ {id n}, derivation.get? id = some n → n.Parenless) ∧
      derivation.bracketed 0 = .ok "(S (NP dogs) ( (VBD ran)))" ∧
      Tree.parse "(S (NP dogs) ( (VBD ran)))" = .ok derivation.stripped ∧
      (∃ b : Bracket, b.Spelled "(S (NP dogs) ( (VBD ran)))".toList ∧ b.Headerless) ∧
      ∃ printed, derivation.stripped.bracketed 0 = .ok printed ∧
        Tree.parse printed = .ok derivation.stripped := by
  have h : Tree.parse "(<T S 1 2> (<L NP NNS NNS dogs>) ((VBD ran)))" = .ok derivation := by
    decide +kernel
  have hmarks : ∀ n ∈ derivation.nodes.toList, n.Parenless := by decide
  have hparenless : ∀ {id n}, derivation.get? id = some n → n.Parenless := fun hn =>
    hmarks _ (Array.mem_toList_iff.mpr (Array.mem_of_getElem? hn))
  have hprinted : derivation.bracketed 0 = .ok "(S (NP dogs) ( (VBD ran)))" := by decide +kernel
  have hread : Tree.parse "(S (NP dogs) ( (VBD ran)))" = .ok derivation.stripped := by
    obtain ⟨printed, hp, hread⟩ := (parse_bracketed h).1 hparenless
    cases hprinted.symm.trans hp
    exact hread
  have hspelled : (Bracket.phrase (some "S") [.leaf "NP" "dogs",
      .phrase none [.leaf "VBD" "ran"]]).Spelled "(S (NP dogs) ( (VBD ran)))".toList :=
    Bracket.ofText?_eq_some.mp (by cbv)
  have hplain : (Bracket.phrase (some "S") [.leaf "NP" "dogs",
      .phrase none [.leaf "VBD" "ran"]]).Headerless :=
    .phrase (List.forall_mem_cons.mpr ⟨.leaf, List.forall_mem_singleton.mpr
      (.phrase (List.forall_mem_singleton.mpr .leaf))⟩)
  exact ⟨h, hparenless, hprinted, hread, ⟨_, hspelled, hplain⟩,
    (parse_bracketed hread).2 hspelled hplain⟩

end Tree

end TreeQuery
