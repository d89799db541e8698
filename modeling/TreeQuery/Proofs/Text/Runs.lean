import TreeQuery.Text.Blank

namespace TreeQuery.Text

variable {p : Char → Bool} {cs rest : List Char}

/-- The run ends where a character of another kind follows. -/
theorem takeWhile_run (hcs : ∀ c ∈ cs, p c = true) (hrest : ∀ c ∈ rest.head?, p c = false) :
    (cs ++ rest).takeWhile p = cs := by
  rw [List.takeWhile_append_of_pos hcs]
  cases rest with
  | nil => simp
  | cons c rest =>
    have hc : p c = false := hrest c rfl
    simp [hc]

theorem dropWhile_run (hcs : ∀ c ∈ cs, p c = true) (hrest : ∀ c ∈ rest.head?, p c = false) :
    (cs ++ rest).dropWhile p = rest := by
  rw [List.dropWhile_append_of_pos hcs]
  cases rest with
  | nil => rfl
  | cons c rest =>
    have hc : p c = false := hrest c rfl
    simp [hc]

/-- What is left begins with a character of another kind. -/
theorem head_dropWhile {c : Char} (h : c ∈ (cs.dropWhile p).head?) : p c = false := by
  have hnot := List.head?_dropWhile_not p cs
  rwa [Option.mem_def.mp h] at hnot

theorem skipBlanks_append {lead : List Char} (hlead : ∀ c ∈ lead, isBlank c = true)
    (h : ∀ c ∈ cs.head?, isBlank c = false) : skipBlanks (lead ++ cs) = cs :=
  dropWhile_run hlead h

theorem skipBlanks_of_visible (h : ∀ c ∈ cs.head?, isBlank c = false) : skipBlanks cs = cs :=
  skipBlanks_append (fun _ hc => absurd hc List.not_mem_nil) h

end TreeQuery.Text
