import TreeQuery.Proofs.Text.Words
import TreeQuery.Text.Line

namespace TreeQuery.Line

open Text

/-- The text without the carriage returns that belong to line ends. -/
def plain : List Char → List Char
  | [] => []
  | c :: cs => if c = '\r' ∧ cs.head? = some '\n' then plain cs else c :: plain cs

theorem plain_append {cs ds : List Char} (h : ds.head? ≠ some '\n') :
    plain (cs ++ ds) = plain cs ++ plain ds := by
  induction cs with
  | nil => rfl
  | cons c cs ih =>
    have hhead : (cs ++ ds).head? = some '\n' ↔ cs.head? = some '\n' := by
      cases cs with
      | nil => simp [h]
      | cons d cs => rfl
    simp only [List.cons_append, plain, hhead, ih]
    split <;> rfl

/-- What has no blanks in it stays as it is. -/
theorem plain_visible_append {w : List Char} (hw : ∀ c ∈ w, isBlank c = false) (cs : List Char) :
    plain (w ++ cs) = w ++ plain cs := by
  induction w with
  | nil => rfl
  | cons c w ih =>
    obtain ⟨hc, hrest⟩ := List.forall_mem_cons.mp hw
    have hcr : c ≠ '\r' := by
      rintro rfl
      cases hc
    rw [List.cons_append, plain, if_neg fun h => hcr h.1, ih hrest, List.cons_append]

/-- Nothing was left out where no line feed is found. -/
theorem eq_of_plain_visible {cs w : List Char} (h : plain cs = w)
    (hw : ∀ c ∈ w, isBlank c = false) : cs = w := by
  induction cs generalizing w with
  | nil => exact h
  | cons c cs ih =>
    rw [plain] at h
    split at h
    · rename_i hc
      obtain ⟨ds, rfl⟩ := List.head?_eq_some_iff.mp hc.2
      obtain rfl : '\n' :: ds = w := ih h hw
      exact absurd (hw '\n' List.mem_cons_self) (by decide)
    · subst h
      exact congrArg (c :: ·) (ih rfl (List.forall_mem_cons.mp hw).2)

theorem blanks_plain {cs : List Char} : Blanks (plain cs) ↔ Blanks cs := by
  induction cs with
  | nil => exact Iff.rfl
  | cons c cs ih =>
    have hcons : Blanks (c :: cs) ↔ isBlank c = true ∧ Blanks cs := List.forall_mem_cons
    rw [plain, hcons, ← ih]
    split
    · rename_i hc
      rw [hc.1]
      exact (and_iff_right rfl).symm
    · exact List.forall_mem_cons

/-- A text begins with a blank if it does so without the carriage returns. -/
theorem startsBlank_plain {cs : List Char} : StartsBlank (plain cs) ↔ StartsBlank cs := by
  have hcons {c : Char} {cs : List Char} : StartsBlank (c :: cs) ↔ isBlank c = true := by
    constructor
    · intro h
      exact h.head c rfl
    · intro h
      exact ⟨c, cs, rfl, h⟩
  cases cs with
  | nil => exact Iff.rfl
  | cons c cs =>
    rw [plain]
    split
    · rename_i hc
      obtain ⟨rfl, hhead⟩ := hc
      obtain ⟨ds, rfl⟩ := List.head?_eq_some_iff.mp hhead
      rw [plain, if_neg (by simp), hcons, hcons]
      exact iff_of_true rfl rfl
    · rw [hcons, hcons]

/-- Where the text can be cut without the carriage returns, it can be cut with them. -/
theorem exists_append_of_plain {cs as bs : List Char} (h : plain cs = as ++ bs) :
    ∃ as' bs', cs = as' ++ bs' ∧ plain as' = as ∧ plain bs' = bs := by
  induction cs generalizing as with
  | nil =>
    obtain ⟨rfl, rfl⟩ := List.append_eq_nil_iff.mp h.symm
    exact ⟨[], [], rfl, rfl, rfl⟩
  | cons c cs ih =>
    cases as with
    | nil => exact ⟨[], c :: cs, rfl, rfl, h⟩
    | cons a as =>
      rw [plain] at h
      split at h
      · rename_i hc
        obtain ⟨as', bs', rfl, ha, hb⟩ := ih h
        refine ⟨c :: as', bs', rfl, ?_, hb⟩
        cases as' with
        | nil => cases ha
        | cons d as' =>
          have hc' : c = '\r' ∧ (d :: as').head? = some '\n' := hc
          rw [plain, if_pos hc', ha]
      · rename_i hc
        obtain ⟨rfl, hrest⟩ := List.cons.inj h
        obtain ⟨as', bs', rfl, ha, hb⟩ := ih hrest
        refine ⟨c :: as', bs', rfl, ?_, hb⟩
        have hc' : ¬ (c = '\r' ∧ as'.head? = some '\n') := by
          intro he
          apply hc
          rw [List.head?_append, he.2]
          exact ⟨he.1, rfl⟩
        rw [plain, if_neg hc', ha]

def first (cs : List Char) : List Char :=
  (ofText cs).headD []

def others (cs : List Char) : List (List Char) :=
  (ofText cs).tail

theorem first_lf (cs : List Char) : first ('\n' :: cs) = [] :=
  rfl

theorem ofText_cr {cs : List Char} (h : cs.head? = some '\n') :
    ofText ('\r' :: cs) = ofText cs := by
  rw [ofText, cut, if_neg (by decide), if_pos ⟨rfl, h⟩]
  rfl

/-- Every other character is one of its line. -/
theorem ofText_cons {c : Char} {cs : List Char} (hlf : c ≠ '\n')
    (hcr : ¬ (c = '\r' ∧ cs.head? = some '\n')) :
    ofText (c :: cs) = (c :: first cs) :: others cs := by
  rw [ofText, cut, if_neg hlf, if_neg hcr]
  change extend c (ofText cs) = _
  rw [first, others]
  cases ofText cs <;> rfl

theorem first_cons {c : Char} {cs : List Char} (hlf : c ≠ '\n')
    (hcr : ¬ (c = '\r' ∧ cs.head? = some '\n')) : first (c :: cs) = c :: first cs := by
  rw [first, ofText_cons hlf hcr]
  rfl

theorem others_cons {c : Char} {cs : List Char} (hlf : c ≠ '\n')
    (hcr : ¬ (c = '\r' ∧ cs.head? = some '\n')) : others (c :: cs) = others cs := by
  rw [others, ofText_cons hlf hcr]
  rfl

theorem ofText_eq {cs : List Char} (h : cs ≠ []) : ofText cs = first cs :: others cs := by
  induction cs with
  | nil => exact absurd rfl h
  | cons c cs ih =>
    by_cases hlf : c = '\n'
    · rw [hlf]
      rfl
    · by_cases hcr : c = '\r' ∧ cs.head? = some '\n'
      · obtain ⟨rfl, hhead⟩ := hcr
        rw [first, others, ofText_cr hhead]
        exact ih (by rintro rfl; cases hhead)
      · rw [ofText_cons hlf hcr, first_cons hlf hcr, others_cons hlf hcr]

/-- The other lines begin after the first line feed. -/
theorem others_line {line : List Char} (h : '\n' ∉ line) (rest : List Char) :
    others (line ++ '\n' :: rest) = ofText rest := by
  induction line with
  | nil => rfl
  | cons c line ih =>
    obtain ⟨hc, hline⟩ := not_or.mp (mt List.mem_cons.mpr h)
    by_cases hcr : c = '\r' ∧ (line ++ '\n' :: rest).head? = some '\n'
    · obtain ⟨rfl, hhead⟩ := hcr
      rw [List.cons_append, others, ofText_cr hhead]
      exact ih hline
    · rw [List.cons_append, others_cons (Ne.symm hc) hcr, ih hline]

theorem others_lastLine {line : List Char} (h : '\n' ∉ line) : others line = [] := by
  induction line with
  | nil => rfl
  | cons c line ih =>
    obtain ⟨hc, hline⟩ := not_or.mp (mt List.mem_cons.mpr h)
    have hcr : ¬ (c = '\r' ∧ line.head? = some '\n') := fun he =>
      hline (List.mem_of_mem_head? he.2)
    rw [others_cons (Ne.symm hc) hcr, ih hline]

/-- What follows in the line is what follows in the text, unless that is a line end. -/
theorem head_first {cs : List Char} {c : Char} (hlf : c ≠ '\n') (hcr : c ≠ '\r') :
    (first cs).head? = some c ↔ cs.head? = some c := by
  cases cs with
  | nil => exact Iff.rfl
  | cons d cs =>
    by_cases hd : d = '\n'
    · simp [hd, first_lf, hlf.symm]
    · by_cases he : d = '\r' ∧ cs.head? = some '\n'
      · obtain ⟨rfl, hhead⟩ := he
        obtain ⟨ds, rfl⟩ := List.head?_eq_some_iff.mp hhead
        simp [first, ofText, cut, hcr.symm]
      · simp [first_cons hd he]

/-- The first line is what stands before the first line feed, but for a carriage return. -/
theorem takeWhile_eq_first (cs : List Char) :
    cs.takeWhile (· != '\n') = first cs ∨ cs.takeWhile (· != '\n') = first cs ++ ['\r'] := by
  induction cs with
  | nil => exact .inl rfl
  | cons c cs ih =>
    by_cases hlf : c = '\n'
    · exact .inl (by simp [hlf, first_lf])
    · by_cases hcr : c = '\r' ∧ cs.head? = some '\n'
      · obtain ⟨rfl, hhead⟩ := hcr
        obtain ⟨ds, rfl⟩ := List.head?_eq_some_iff.mp hhead
        exact .inr (by simp [first, ofText, cut])
      · rw [List.takeWhile_cons_of_pos (by simpa using hlf), first_cons hlf hcr]
        exact ih.imp (congrArg (c :: ·)) (congrArg (c :: ·))

end TreeQuery.Line
