import Mathlib.Data.List.Infix
import TreeQuery.Stream

namespace TreeQuery.Stream

/-- The text without its headers. A header begins with an angle bracket directly after an opening
bracket and ends with the next closing angle bracket. -/
def withoutHeaders : List Char → List Char
  | [] => []
  | c :: cs =>
    if c = '(' ∧ cs.head? = some '<' then c :: withoutHeaders (cs.dropWhile (· != '>')).tail
    else c :: withoutHeaders cs
termination_by cs => cs.length
decreasing_by
  · have h := (List.dropWhile_suffix (· != '>') (l := cs)).length_le
    rw [List.length_tail, List.length_cons]
    omega
  · exact Nat.lt_succ_self _

/-- How many more brackets are opened than closed. -/
def depth (cs : List Char) : Int :=
  (withoutHeaders cs).count '(' - (withoutHeaders cs).count ')'

/-- The text begins with a bracket, which its last character closes, and none before. -/
def IsChunk (cs : List Char) : Prop :=
  cs.head? = some '(' ∧ depth cs = 0 ∧
    ∀ start, start <+: cs → start ≠ [] → start ≠ cs → depth start ≠ 0

theorem IsChunk.ne_nil {cs : List Char} (h : IsChunk cs) : cs ≠ [] := by
  rintro rfl
  cases h.1

/-- Where the depth is zero again there has been a chunk. -/
theorem exists_chunk {cs : List Char} (hhead : cs.head? = some '(') (hzero : depth cs = 0) :
    ∃ text, text <+: cs ∧ IsChunk text := by
  induction hn : cs.length using Nat.strong_induction_on generalizing cs with
  | _ n ih =>
    subst hn
    by_cases hfirst : ∀ start, start <+: cs → start ≠ [] → start ≠ cs → depth start ≠ 0
    · exact ⟨cs, List.prefix_rfl, hhead, hzero, hfirst⟩
    · simp only [not_forall, not_not] at hfirst
      obtain ⟨start, hp, hnil, hne, hz⟩ := hfirst
      have hlt : start.length < cs.length :=
        Nat.lt_of_le_of_ne hp.length_le fun he => hne (hp.eq_of_length he)
      have hhead' : start.head? = some '(' := by
        obtain ⟨c, tail, rfl⟩ := List.exists_cons_of_ne_nil hnil
        obtain ⟨rest, rfl⟩ := hp
        exact hhead
      obtain ⟨text, ht, hchunk⟩ := ih _ hlt hhead' hz rfl
      exact ⟨text, ht.trans hp, hchunk⟩

def level (c : Char) : Int :=
  if c = '(' then 1 else if c = ')' then -1 else 0

/-- Whether the next character is in a header. -/
def headerAfter (inHeader : Bool) (c : Char) (next : Option Char) : Bool :=
  if inHeader then c != '>' else c = '(' && next == some '<'

def depthFrom (inHeader : Bool) : List Char → Int
  | [] => 0
  | c :: cs =>
    (if inHeader then 0 else level c) + depthFrom (headerAfter inHeader c cs.head?) cs

theorem depthFrom_header (cs : List Char) :
    depthFrom true cs = depthFrom false (cs.dropWhile (· != '>')).tail := by
  induction cs with
  | nil => rfl
  | cons c cs ih =>
    rw [depthFrom, List.dropWhile_cons]
    by_cases hc : c = '>'
    · simp [headerAfter, hc]
    · have hin : headerAfter true c cs.head? = true := by simp [headerAfter, hc]
      simp [hin, hc, ih]

theorem count_cons_level (c : Char) (cs : List Char) :
    ((c :: cs).count '(' - (c :: cs).count ')' : Int) =
      level c + (cs.count '(' - cs.count ')') := by
  rw [level, List.count_cons, List.count_cons]
  by_cases ho : c = '('
  · simp [ho]
    omega
  · by_cases hc : c = ')'
    · simp [hc]
      omega
    · simp [ho, hc]

theorem depth_header {cs : List Char} (h : cs.head? = some '<') :
    depth ('(' :: cs) = level '(' + depth (cs.dropWhile (· != '>')).tail := by
  rw [depth, withoutHeaders, if_pos ⟨rfl, h⟩]
  exact count_cons_level _ _

theorem depth_cons {c : Char} {cs : List Char} (h : ¬ (c = '(' ∧ cs.head? = some '<')) :
    depth (c :: cs) = level c + depth cs := by
  rw [depth, withoutHeaders, if_neg h]
  exact count_cons_level _ _

theorem depthFrom_eq_depth (cs : List Char) : depthFrom false cs = depth cs := by
  induction cs using withoutHeaders.induct with
  | case1 => simp [depthFrom, depth, withoutHeaders]
  | case2 c cs h ih =>
    obtain ⟨rfl, hhead⟩ := h
    have hin : headerAfter false '(' cs.head? = true := by simp [headerAfter, hhead]
    rw [depthFrom, hin, depthFrom_header, ih, depth_header hhead]
    rfl
  | case3 c cs h ih =>
    have hin : headerAfter false c cs.head? = false := by
      by_cases hc : c = '('
      · simpa [headerAfter, hc] using fun hhead => h ⟨hc, hhead⟩
      · simp [headerAfter, hc]
    rw [depthFrom, hin, ih, depth_cons h]
    rfl

/-- The depth at some place in a text does not depend on what follows there. -/
theorem depthFrom_prefix {inHeader : Bool} {c : Char} {start cs : List Char} (h : start <+: cs) :
    depthFrom inHeader (c :: start) =
      (if inHeader then 0 else level c) +
        depthFrom (headerAfter inHeader c cs.head?) start := by
  rw [depthFrom]
  cases start with
  | nil => rfl
  | cons d start =>
    obtain ⟨rest, rfl⟩ := h
    rfl

namespace OpenChunk

variable {k : OpenChunk}

theorem add_inHeader (c : Char) (next : Option Char) :
    (k.add c next).inHeader = headerAfter k.inHeader c next := by
  unfold add headerAfter
  cases hin : k.inHeader with
  | true => rfl
  | false =>
    by_cases ho : c = '('
    · simp [ho]
    · by_cases hc : c = ')' <;> simp [ho, hc]

theorem add_depth (hk : 1 ≤ k.depth) (c : Char) (next : Option Char) :
    ((k.add c next).depth : Int) = k.depth + if k.inHeader then 0 else level c := by
  unfold add level
  cases hin : k.inHeader with
  | true => simp
  | false =>
    by_cases ho : c = '('
    · simp [ho]
    · by_cases hc : c = ')'
      · simp [hc]
        omega
      · simp [ho, hc]

/-- Only a closing bracket closes. -/
theorem eq_close_of_add (hk : 1 ≤ k.depth) {c : Char} {next : Option Char}
    (h : (k.add c next).depth = 0) : c = ')' := by
  have hd := add_depth hk c next
  rw [h, level] at hd
  by_cases hc : c = ')'
  · exact hc
  · rw [if_neg hc] at hd
    split at hd
    · omega
    · split at hd <;> omega

theorem add_line (c : Char) (next : Option Char) : (k.add c next).line = k.line := by
  simp only [add]
  split
  · rfl
  · split
    · rfl
    · split <;> rfl

/-- A line end is text of the chunk and nothing more. -/
theorem add_lf (next : Option Char) : k.add '\n' next = { k with text := '\n' :: k.text } := by
  unfold add
  cases hin : k.inHeader <;> simp

theorem add_text (c : Char) (next : Option Char) : (k.add c next).text = c :: k.text := by
  simp only [add]
  split
  · rfl
  · split
    · rfl
    · split <;> rfl

end OpenChunk

end TreeQuery.Stream
