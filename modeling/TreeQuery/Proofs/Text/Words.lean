import TreeQuery.Proofs.Text.Runs

namespace TreeQuery.Text

/-- Nothing but space, tab, carriage return and line feed. -/
def Blanks (cs : List Char) : Prop :=
  ∀ c ∈ cs, isBlank c = true

theorem blanks_nil : Blanks [] :=
  fun _ h => absurd h List.not_mem_nil

theorem Blanks.cons {c : Char} {cs : List Char} (hc : isBlank c = true) (h : Blanks cs) :
    Blanks (c :: cs) :=
  List.forall_mem_cons.mpr ⟨hc, h⟩

theorem Blanks.append {gap cs : List Char} (hg : Blanks gap) (h : Blanks cs) :
    Blanks (gap ++ cs) :=
  List.forall_mem_append.mpr ⟨hg, h⟩

def StartsBlank (cs : List Char) : Prop :=
  ∃ c rest, cs = c :: rest ∧ isBlank c = true

theorem StartsBlank.head {cs : List Char} (h : StartsBlank cs) :
    ∀ c ∈ cs.head?, isBlank c = true := by
  obtain ⟨c, rest, rfl, hc⟩ := h
  intro d hd
  cases hd
  exact hc

/-- A text begins with blanks and goes on, if at all, with something else. -/
theorem exists_gap (cs : List Char) :
    ∃ gap, Blanks gap ∧ cs = gap ++ skipBlanks cs ∧
      ∀ c ∈ (skipBlanks cs).head?, isBlank c = false := by
  have hgap : Blanks (cs.takeWhile isBlank) := List.all_eq_true.mp List.all_takeWhile
  exact ⟨_, hgap, List.takeWhile_append_dropWhile.symm, fun c hc => head_dropWhile hc⟩

theorem blanks_of_skipBlanks {cs : List Char} (h : skipBlanks cs = []) : Blanks cs := by
  obtain ⟨gap, hg, he, _⟩ := exists_gap cs
  rw [h, List.append_nil] at he
  rwa [he]

theorem skipBlanks_blanks {gap : List Char} (hg : Blanks gap) : skipBlanks gap = [] := by
  have hend : ∀ c ∈ ([] : List Char).head?, isBlank c = false := fun c hc => by cases hc
  have h := skipBlanks_append hg hend
  rwa [List.append_nil] at h

theorem words_append_blanks {gap : List Char} (hg : Blanks gap) (cs : List Char) :
    words (gap ++ cs) = words cs := by
  induction gap with
  | nil => rfl
  | cons c gap ih =>
    obtain ⟨hc, hgap⟩ := List.forall_mem_cons.mp hg
    rw [List.cons_append, words, if_pos hc, ih hgap]

theorem words_blanks {gap : List Char} (hg : Blanks gap) : words gap = [] := by
  have h := words_append_blanks hg []
  rwa [List.append_nil] at h

/-- A run of other characters is a word where a blank ends it. -/
theorem words_append_word {w rest : List Char} (hne : w ≠ []) (hw : ∀ c ∈ w, isBlank c = false)
    (hrest : ∀ c ∈ rest.head?, isBlank c = true) : words (w ++ rest) = w :: words rest := by
  induction w with
  | nil => exact absurd rfl hne
  | cons c w ih =>
    obtain ⟨hc, htail⟩ := List.forall_mem_cons.mp hw
    rw [List.cons_append, words, if_neg (by simp [hc])]
    cases w with
    | nil =>
      cases rest with
      | nil => rfl
      | cons d rest =>
        have hd : isBlank d = true := hrest d rfl
        simp only [List.nil_append, List.head?_cons, words, if_pos hd]
        cases words rest with
        | nil => rfl
        | cons v vs => simp [hd]
    | cons d w =>
      have hd : isBlank d = false := htail d List.mem_cons_self
      rw [ih (List.cons_ne_nil d w) htail]
      simp [hd]

/-- Induction over a text word by word. -/
theorem words_induction {motive : List Char → Prop} (blanks : ∀ gap, Blanks gap → motive gap)
    (word : ∀ gap w rest, Blanks gap → w ≠ [] → (∀ c ∈ w, isBlank c = false) →
      (∀ c ∈ rest.head?, isBlank c = true) → motive rest → motive (gap ++ (w ++ rest)))
    (cs : List Char) : motive cs := by
  obtain ⟨gap, hgap, he, hhead⟩ := exists_gap cs
  by_cases hnil : skipBlanks cs = []
  · exact blanks cs (blanks_of_skipBlanks hnil)
  · obtain ⟨c, visible, hv⟩ := List.exists_cons_of_ne_nil hnil
    have hc : isBlank c = false := hhead c (by rw [hv]; rfl)
    let p := fun c => !isBlank c
    have hw : ∀ d ∈ (c :: visible).takeWhile p, isBlank d = false := fun d hd => by
      simpa [p] using List.all_eq_true.mp List.all_takeWhile d hd
    have hne : (c :: visible).takeWhile p ≠ [] := by simp [p, hc]
    have hrest : ∀ d ∈ ((c :: visible).dropWhile p).head?, isBlank d = true := fun d hd => by
      simpa [p] using head_dropWhile hd
    have hlt : ((c :: visible).dropWhile p).length < cs.length := by
      have hle := (List.dropWhile_suffix p (l := visible)).length_le
      have hcs := length_skipBlanks_le cs
      rw [hv, List.length_cons] at hcs
      simp only [List.dropWhile_cons, p, hc, Bool.not_false, ↓reduceIte]
      exact Nat.lt_of_lt_of_le (Nat.lt_succ_of_le hle) hcs
    rw [he, hv, ← List.takeWhile_append_dropWhile (p := p) (l := c :: visible)]
    exact word gap _ _ hgap hne hw hrest (words_induction blanks word _)
termination_by cs.length

/-- Words are not empty, and are made of characters of the text that are no blanks. -/
theorem mem_words {cs w : List Char} (h : w ∈ words cs) :
    w ≠ [] ∧ ∀ c ∈ w, c ∈ cs ∧ isBlank c = false := by
  induction cs using words_induction with
  | blanks gap hgap =>
    rw [words_blanks hgap] at h
    exact absurd h List.not_mem_nil
  | word gap v rest hgap hne hv hrest ih =>
    rw [words_append_blanks hgap, words_append_word hne hv hrest, List.mem_cons] at h
    rcases h with rfl | h
    · exact ⟨hne, fun c hc =>
        ⟨List.mem_append_right _ (List.mem_append_left _ hc), hv c hc⟩⟩
    · obtain ⟨hw, hc⟩ := ih h
      exact ⟨hw, fun c hm =>
        ⟨List.mem_append_right _ (List.mem_append_right _ (hc c hm).1), (hc c hm).2⟩⟩

theorem blanks_of_words {cs : List Char} (h : words cs = []) : Blanks cs := by
  induction cs using words_induction with
  | blanks gap hgap => exact hgap
  | word gap w rest hgap hne hw hrest =>
    rw [words_append_blanks hgap, words_append_word hne hw hrest] at h
    cases h

end TreeQuery.Text
