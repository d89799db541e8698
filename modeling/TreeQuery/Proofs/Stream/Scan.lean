import TreeQuery.Proofs.Stream.Division
import TreeQuery.Proofs.Text.LineEnds

namespace TreeQuery.Stream

open Text

theorem isSeparator_iff {line : List Char} : isSeparator line = true ↔ Separates line := by
  rw [isSeparator, Bool.or_eq_true, List.isEmpty_iff, List.dropWhile_eq_nil_iff,
    List.isPrefixOf_iff_prefix]
  apply or_congr_right
  constructor
  · intro h
    refine ⟨line.takeWhile isWhiteSpace, List.all_eq_true.mp List.all_takeWhile, ?_⟩
    have hp := (List.prefix_append_right_inj (line.takeWhile isWhiteSpace)).mpr h
    rwa [List.takeWhile_append_dropWhile] at hp
  · intro h
    obtain ⟨gap, hgap, rest, rfl⟩ := h
    have hend : ∀ c ∈ (['I', 'D', '='] ++ rest).head?, isWhiteSpace c = false := by
      intro c hc
      cases hc
      rfl
    rw [List.append_assoc, dropWhile_run hgap hend]
    exact List.prefix_append _ _

/-- A carriage return at the end of a line makes no difference. -/
theorem separates_cr {line : List Char} : Separates (line ++ ['\r']) ↔ Separates line := by
  have hid : ∀ gap : List Char, gap ++ ['I', 'D', '='] ≠ line ++ ['\r'] := by
    intro gap he
    have hlast := congrArg List.getLast? he
    simp at hlast
  apply or_congr
  · rw [List.forall_mem_append, List.forall_mem_singleton]
    exact and_iff_left rfl
  · apply exists_congr
    intro gap
    rw [List.prefix_concat_iff]
    exact and_congr_right fun _ => or_iff_right (hid gap)

theorem isSeparator_first (cs : List Char) :
    isSeparator (Line.first cs) = true ↔ Separates (cs.takeWhile (· != '\n')) := by
  rw [isSeparator_iff]
  rcases Line.takeWhile_eq_first cs with h | h
  · rw [h]
  · rw [h, separates_cr]

/-- What is given from somewhere in a line on. -/
def resume (line : Nat) (stray : Bool) (chunk : Option OpenChunk) (cs : List Char) :
    List (Except ReadError Tree) :=
  (scanLine line stray chunk (Line.first cs)).1.map Item.read ++
    scan (line + 1) (scanLine line stray chunk (Line.first cs)).2 ((Line.others cs).map some)

theorem scan_open (line : Nat) (k : OpenChunk) (cs : List Char) :
    scan line (some k) ((Line.ofText cs).map some) = resume line false (some k) cs := by
  cases cs with
  | nil => rfl
  | cons c cs =>
    rw [Line.ofText_eq (List.cons_ne_nil c cs)]
    rfl

theorem scan_line (line : Nat) {cs : List Char}
    (h : ¬ Separates (cs.takeWhile (· != '\n'))) :
    scan line none ((Line.ofText cs).map some) = resume line false none cs := by
  rw [← isSeparator_first] at h
  cases cs with
  | nil => exact absurd rfl h
  | cons c cs =>
    rw [Line.ofText_eq (List.cons_ne_nil c cs), List.map_cons, scan, if_neg (by simpa using h)]
    rfl

theorem scan_separator (line : Nat) {cs : List Char}
    (h : Separates (cs.takeWhile (· != '\n'))) :
    scan line none ((Line.ofText cs).map some) =
      scan (line + 1) none ((Line.others cs).map some) := by
  rw [← isSeparator_first] at h
  cases cs with
  | nil => rfl
  | cons c cs =>
    rw [Line.ofText_eq (List.cons_ne_nil c cs), List.map_cons, scan, if_pos (by simpa using h)]

section Character

variable {line : Nat} {stray : Bool} {c : Char} {cs : List Char}

theorem resume_cr {chunk : Option OpenChunk} (h : cs.head? = some '\n') :
    resume line stray chunk ('\r' :: cs) = resume line stray chunk cs := by
  rw [resume, Line.first, Line.others, Line.ofText_cr h]
  rfl

/-- A header is recognized in the line as in the text. -/
theorem head_first_beq : ((Line.first cs).head? == some '<') = (cs.head? == some '<') := by
  apply Bool.eq_iff_iff.mpr
  rw [beq_iff_eq, beq_iff_eq]
  exact Line.head_first (by decide) (by decide)

theorem resume_open : resume line stray none ('(' :: cs) =
    resume line false (some (.start line cs.head?)) cs := by
  have hs : OpenChunk.start line (Line.first cs).head? = .start line cs.head? := by
    rw [OpenChunk.start, OpenChunk.start, head_first_beq]
  have hlf : '(' ≠ '\n' := by decide
  have hcr : ¬ ('(' = '\r' ∧ cs.head? = some '\n') := fun h => absurd h.1 (by decide)
  rw [resume, Line.first_cons hlf hcr, Line.others_cons hlf hcr, scanLine, if_pos rfl, hs]
  rfl

/-- White space between trees is passed over. -/
theorem resume_blank (hc : isWhiteSpace c = true) (hlf : c ≠ '\n') :
    resume line stray none (c :: cs) = resume line stray none cs := by
  by_cases hcr : c = '\r' ∧ cs.head? = some '\n'
  · rw [hcr.1, resume_cr hcr.2]
  · have ho : c ≠ '(' := by
      rintro rfl
      cases hc
    rw [resume, Line.first_cons hlf hcr, Line.others_cons hlf hcr, scanLine, if_neg ho,
      if_pos (by simp [hc])]
    rfl

/-- Of what else stands between trees the first character is reported. -/
theorem resume_stray (hc : isWhiteSpace c = false) (ho : c ≠ '(') :
    resume line stray none (c :: cs) =
      if stray then resume line true none cs
      else .error (.inLine line (.stray c)) :: resume line true none cs := by
  have hlf : c ≠ '\n' := by
    rintro rfl
    cases hc
  have hcr : ¬ (c = '\r' ∧ cs.head? = some '\n') := by
    intro h
    rw [h.1] at hc
    cases hc
  rw [resume, Line.first_cons hlf hcr, Line.others_cons hlf hcr, scanLine, if_neg ho]
  cases stray with
  | true =>
    rw [if_pos (by simp), if_pos rfl]
    rfl
  | false =>
    rw [if_neg (by simp [hc]), if_neg (by simp)]
    rfl

theorem resume_some_stray (k : OpenChunk) :
    resume line stray (some k) cs = resume line false (some k) cs := by
  rw [resume, resume]
  cases Line.first cs <;> rfl

end Character

namespace OpenChunk

variable {k : OpenChunk} {c : Char} {next : Option Char}

/-- The chunk after one more character of the text. A carriage return that belongs to a line end is
not kept. -/
def take (k : OpenChunk) (c : Char) (next : Option Char) : OpenChunk :=
  if c = '\r' ∧ next = some '\n' then k else k.add c next

theorem take_inHeader : (k.take c next).inHeader = headerAfter k.inHeader c next := by
  rw [take]
  split
  · rename_i h
    rw [h.1, headerAfter]
    cases k.inHeader <;> rfl
  · exact add_inHeader c next

theorem take_depth (hk : 1 ≤ k.depth) :
    ((k.take c next).depth : Int) = k.depth + if k.inHeader then 0 else level c := by
  rw [take]
  split
  · rename_i h
    rw [h.1]
    cases k.inHeader <;> exact (Int.add_zero _).symm
  · exact add_depth hk c next

theorem take_line : (k.take c next).line = k.line := by
  rw [take]
  split
  · rfl
  · exact add_line c next

/-- The depth goes on being counted from where it was. -/
theorem take_depthFrom (hk : 1 ≤ k.depth) {start cs : List Char} (h : start <+: cs) :
    ((k.take c cs.head?).depth : Int) + depthFrom (k.take c cs.head?).inHeader start =
      k.depth + depthFrom k.inHeader (c :: start) := by
  rw [take_depth hk, take_inHeader, depthFrom_prefix h, Int.add_assoc]

theorem take_text (cs : List Char) :
    (k.take c cs.head?).text.reverse ++ Line.plain cs = k.text.reverse ++ Line.plain (c :: cs) := by
  rw [take, Line.plain]
  split
  · rfl
  · rw [add_text, List.reverse_cons, List.append_assoc]
    rfl

/-- The chunk stays open where the depth is not zero. -/
theorem take_pos (hk : 1 ≤ k.depth) (h : (k.depth : Int) + depthFrom k.inHeader [c] ≠ 0) :
    1 ≤ (k.take c next).depth := by
  have hd : ((k.take c next).depth : Int) = k.depth + if k.inHeader then 0 else level c :=
    take_depth hk
  rw [depthFrom, depthFrom, Int.add_zero] at h
  omega

theorem take_closed (hk : 1 ≤ k.depth) (h : (k.take c next).depth = 0) : c = ')' := by
  rw [take] at h
  split at h
  · omega
  · exact eq_close_of_add hk h

end OpenChunk

theorem start_depthFrom (line : Nat) {start cs : List Char} (h : start <+: cs) :
    ((OpenChunk.start line cs.head?).depth : Int) +
      depthFrom (OpenChunk.start line cs.head?).inHeader start = depth ('(' :: start) := by
  rw [← depthFrom_eq_depth, depthFrom_prefix h]
  rfl

variable {line : Nat} {stray : Bool} {k : OpenChunk}

/-- While a tree is open each character goes into it, and the bracket that closes it ends it. -/
theorem resume_take (hk : 1 ≤ k.depth) (c : Char) (cs : List Char) :
    resume line stray (some k) (c :: cs) =
      if (k.take c cs.head?).depth = 0 then
        Tree.parseAt k.line (k.text.reverse ++ [c]) :: resume line false none cs
      else resume (line + [c].count '\n') false (some (k.take c cs.head?)) cs := by
  by_cases hlf : c = '\n'
  · subst hlf
    have ht : k.take '\n' cs.head? = { k with text := '\n' :: k.text } := by
      rw [OpenChunk.take, if_neg (by simp), OpenChunk.add_lf]
    rw [ht, if_neg (Nat.ne_of_gt hk)]
    exact scan_open (line + 1) _ cs
  · have hcount : [c].count '\n' = 0 := by simp [hlf]
    rw [hcount, Nat.add_zero]
    by_cases hcr : c = '\r' ∧ cs.head? = some '\n'
    · have ht : k.take c cs.head? = k := if_pos hcr
      rw [ht, if_neg (by omega), hcr.1, resume_cr hcr.2, resume_some_stray]
    · have ht : k.take c cs.head? = k.add c (Line.first cs).head? := by
        rw [OpenChunk.take, if_neg hcr]
        unfold OpenChunk.add
        rw [head_first_beq]
      rw [ht, resume, Line.first_cons hlf hcr, Line.others_cons hlf hcr, scanLine]
      simp only [OpenChunk.isClosed, beq_iff_eq]
      split
      · rw [OpenChunk.add_line, OpenChunk.add_text, List.reverse_cons]
        rfl
      · rfl

/-- The text is read to the bracket that closes the open tree. -/
theorem resume_chunk {text : List Char} (rest : List Char) (hk : 1 ≤ k.depth)
    (hopen : ∀ start, start <+: text → start ≠ text →
      (k.depth : Int) + depthFrom k.inHeader start ≠ 0)
    (hclose : (k.depth : Int) + depthFrom k.inHeader text = 0) :
    resume line stray (some k) (text ++ rest) =
      Tree.parseAt k.line (k.text.reverse ++ Line.plain text) ::
        resume (line + text.count '\n') false none rest := by
  -- by induction on the text up to the closing bracket; before it the depth stays positive
  induction text generalizing k line stray with
  | nil =>
    rw [depthFrom] at hclose
    omega
  | cons c text ih =>
    have hstep {start : List Char} (h : start <+: text) :=
      OpenChunk.take_depthFrom (c := c) hk (h.trans (List.prefix_append text rest))
    rw [List.cons_append, resume_take hk]
    cases text with
    | nil =>
      have hzero : (k.take c rest.head?).depth = 0 := by
        have h := hstep List.prefix_rfl
        rw [hclose] at h
        simpa [depthFrom] using h
      have hc := OpenChunk.take_closed hk hzero
      subst hc
      rw [List.nil_append, if_pos hzero]
      rfl
    | cons d text =>
      have hpos : 1 ≤ (k.take c (d :: text ++ rest).head?).depth :=
        OpenChunk.take_pos hk (hopen [c] ⟨d :: text, rfl⟩ (by simp))
      have hcount : (c :: d :: text).count '\n' = [c].count '\n' + (d :: text).count '\n' := by
        rw [← List.count_append]
        rfl
      have htext := OpenChunk.take_text (k := k) (c := c) (d :: text)
      rw [if_neg (Nat.ne_of_gt hpos), ih hpos, OpenChunk.take_line, hcount, ← htext, Nat.add_assoc]
      · rfl
      · intro start hp hs
        rw [hstep hp]
        exact hopen (c :: start) ((List.prefix_cons_inj c).mpr hp) (by simpa using hs)
      · rw [hstep List.prefix_rfl]
        exact hclose

/-- A tree without an end takes up the rest of the text. -/
theorem resume_unclosed {cs : List Char} (hk : 1 ≤ k.depth)
    (hopen : ∀ start, start <+: cs → (k.depth : Int) + depthFrom k.inHeader start ≠ 0) :
    resume line stray (some k) cs = [.error (.inLine k.line .unbalanced)] := by
  induction cs generalizing k line stray with
  | nil => rfl
  | cons c cs ih =>
    have hstep {start : List Char} (h : start <+: cs) := OpenChunk.take_depthFrom (c := c) hk h
    have hpos : 1 ≤ (k.take c cs.head?).depth := OpenChunk.take_pos hk (hopen [c] ⟨cs, rfl⟩)
    rw [resume_take hk, if_neg (Nat.ne_of_gt hpos), ih hpos, OpenChunk.take_line]
    intro start hp
    rw [hstep hp]
    exact hopen (c :: start) ((List.prefix_cons_inj c).mpr hp)

/-- After a report nothing more is reported up to the next tree or line end. -/
theorem resume_reported {text : List Char} (rest : List Char) (ho : '(' ∉ text)
    (hlf : '\n' ∉ text) : resume line true none (text ++ rest) = resume line true none rest := by
  induction text with
  | nil => rfl
  | cons c text ih =>
    obtain ⟨ho, hos⟩ := not_or.mp (mt List.mem_cons.mpr ho)
    obtain ⟨hlf, hlfs⟩ := not_or.mp (mt List.mem_cons.mpr hlf)
    rw [List.cons_append]
    cases hc : isWhiteSpace c with
    | true => rw [resume_blank hc (Ne.symm hlf), ih hos hlfs]
    | false => rw [resume_stray hc (Ne.symm ho), if_pos rfl, ih hos hlfs]

theorem resume_stretch {text rest : List Char} (ho : '(' ∉ text) (hlf : '\n' ∉ text)
    (hrest : ∀ c ∈ rest.head?, c = '(' ∨ c = '\n') :
    resume line false none (text ++ rest) =
      (Piece.stretch text).results line ++ resume line false none rest := by
  -- what follows the stretch does not depend on whether something has been reported
  have hforget : resume line true none rest = resume line false none rest := by
    cases rest with
    | nil => rfl
    | cons c rest =>
      rcases hrest c rfl with rfl | rfl
      · rw [resume_open, resume_open]
      · rfl
  induction text with
  | nil => rfl
  | cons c text ih =>
    obtain ⟨ho, hos⟩ := not_or.mp (mt List.mem_cons.mpr ho)
    obtain ⟨hlf, hlfs⟩ := not_or.mp (mt List.mem_cons.mpr hlf)
    rw [List.cons_append, Piece.results]
    cases hc : isWhiteSpace c with
    | true =>
      rw [resume_blank hc (Ne.symm hlf), ih hos hlfs, List.find?_cons_of_neg (by simp [hc])]
      rfl
    | false =>
      rw [resume_stray hc (Ne.symm ho), if_neg (by simp), resume_reported rest hos hlfs, hforget,
        List.find?_cons_of_pos (by simp [hc])]
      rfl

end TreeQuery.Stream
