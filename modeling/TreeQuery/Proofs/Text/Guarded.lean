import Mathlib.Algebra.Group.Nat.Even
import TreeQuery.Proofs.Text.Quoted

namespace TreeQuery.Quoted

/-- The text with a backslash before each of the characters that need one. -/
def guarded (needs : Char → Bool) (cs : List Char) : List Char :=
  cs.flatMap fun c => if needs c then ['\\', c] else [c]

section Guarded

variable {needs : Char → Bool} {c : Char}

theorem guarded_of_needs (h : needs c = true) (cs : List Char) :
    guarded needs (c :: cs) = '\\' :: c :: guarded needs cs := by
  simp [guarded, h]

theorem guarded_of_not_needs (h : needs c = false) (cs : List Char) :
    guarded needs (c :: cs) = c :: guarded needs cs := by
  simp [guarded, h]

end Guarded

/-- The characters that a backslash is put before in quotes. -/
def isQuoteMark (c : Char) : Bool :=
  c = '"' || c = '\\'

theorem ne_of_not_isQuoteMark {c : Char} (h : isQuoteMark c = false) : c ≠ '"' ∧ c ≠ '\\' := by
  simpa [isQuoteMark] using h

theorem closed_guarded_quotes (cs : List Char) : Closed '"' (guarded isQuoteMark cs) := by
  induction cs with
  | nil => exact closed_nil (by decide)
  | cons c cs ih =>
    cases hc : isQuoteMark c with
    | true =>
      rw [guarded_of_needs hc]
      exact ih.escaped c
    | false =>
      obtain ⟨hquote, hback⟩ := ne_of_not_isQuoteMark hc
      rw [guarded_of_not_needs hc]
      exact ih.plain hback hquote

theorem unescape_guarded_quotes (cs : List Char) : unescape (guarded isQuoteMark cs) = cs := by
  induction cs with
  | nil => rfl
  | cons c cs ih =>
    cases hc : isQuoteMark c with
    | true =>
      have hmark : c = '"' ∨ c = '\\' := by simpa [isQuoteMark] using hc
      rw [guarded_of_needs hc]
      rcases hmark with rfl | rfl
      · rw [unescape, ih]
      · rw [unescape, ih]
    | false =>
      rw [guarded_of_not_needs hc, unescape_plain (ne_of_not_isQuoteMark hc).2, ih]

def isSlash (c : Char) : Bool :=
  c = '/'

/-- A guarded text does not begin with a slash. -/
theorem head_guarded_slashes (cs : List Char) : ∀ c ∈ (guarded isSlash cs).head?, c ≠ '/' := by
  cases cs with
  | nil => simp [guarded]
  | cons c cs =>
    cases hc : isSlash c with
    | true => simp [guarded_of_needs hc]
    | false =>
      have hne : c ≠ '/' := by simpa [isSlash] using hc
      simpa [guarded_of_not_needs hc] using hne

/-- A backslash before each slash is undone, whatever stands before it. -/
theorem unescapeSlashes_guarded (cs : List Char) :
    unescapeSlashes (guarded isSlash cs) = cs := by
  induction cs with
  | nil => rfl
  | cons c cs ih =>
    cases hc : isSlash c with
    | true =>
      have hslash : c = '/' := by simpa [isSlash] using hc
      rw [guarded_of_needs hc, hslash, unescapeSlashes, ih]
    | false =>
      rw [guarded_of_not_needs hc, unescapeSlashes, ih]
      intro rest _ he
      exact head_guarded_slashes cs '/' (by simp [he]) rfl

/-- How many backslashes stand at the end of a text. -/
def backslashesAtEnd (cs : List Char) : Nat :=
  (cs.reverse.takeWhile fun c => c = '\\').length

theorem backslashesAtEnd_cons_of_ne {c : Char} (h : c ≠ '\\') (cs : List Char) :
    backslashesAtEnd (c :: cs) = backslashesAtEnd cs := by
  rw [backslashesAtEnd, List.reverse_cons, List.takeWhile_append]
  split
  · rename_i hall
    simp [h, backslashesAtEnd, hall]
  · rfl

/-- A backslash and what is paired with it make no difference. -/
theorem even_backslashesAtEnd_pair (c : Char) (cs : List Char) :
    Even (backslashesAtEnd ('\\' :: c :: cs)) ↔ Even (backslashesAtEnd cs) := by
  have hreverse : ('\\' :: c :: cs).reverse = cs.reverse ++ [c, '\\'] := by simp
  rw [backslashesAtEnd, hreverse, List.takeWhile_append]
  split
  · rename_i hall
    have heven : Even ([c, '\\'].takeWhile fun c => c = '\\').length := by
      by_cases hc : c = '\\'
      · rw [hc]
        decide
      · simp [hc]
    rw [List.length_append, Nat.even_add, iff_true_right heven, backslashesAtEnd, hall]
  · rfl

/-- Wherever a slash stands, and at the end, the backslashes before it are even in number. -/
structure EvenBackslashes (cs : List Char) : Prop where
  beforeSlash : ∀ before after, cs = before ++ '/' :: after → Even (backslashesAtEnd before)
  atEnd : Even (backslashesAtEnd cs)

theorem evenBackslashes_nil : EvenBackslashes [] :=
  ⟨fun before after he => by simp at he, by decide⟩

theorem evenBackslashes_cons {c : Char} (hc : c ≠ '\\') (cs : List Char) :
    EvenBackslashes (c :: cs) ↔ EvenBackslashes cs := by
  constructor
  · intro h
    constructor
    · intro before after he
      rw [← backslashesAtEnd_cons_of_ne hc]
      exact h.beforeSlash (c :: before) after (by rw [he, List.cons_append])
    · rw [← backslashesAtEnd_cons_of_ne hc]
      exact h.atEnd
  · intro h
    constructor
    · intro before after he
      cases before with
      | nil => decide
      | cons d before =>
        obtain ⟨rfl, hcs⟩ := List.cons.inj he
        rw [backslashesAtEnd_cons_of_ne hc]
        exact h.beforeSlash before after hcs
    · rw [backslashesAtEnd_cons_of_ne hc]
      exact h.atEnd

theorem evenBackslashes_pair (c : Char) (cs : List Char) :
    EvenBackslashes ('\\' :: c :: cs) ↔ c ≠ '/' ∧ EvenBackslashes cs := by
  constructor
  · intro h
    refine ⟨?_, ?_, ?_⟩
    · rintro rfl
      have hone : Even (backslashesAtEnd ['\\']) := h.beforeSlash ['\\'] cs rfl
      exact absurd hone (by decide)
    · intro before after he
      rw [← even_backslashesAtEnd_pair c]
      exact h.beforeSlash ('\\' :: c :: before) after (by rw [he]; rfl)
    · exact (even_backslashesAtEnd_pair c cs).mp h.atEnd
  · intro ⟨hc, h⟩
    constructor
    · intro before after he
      cases before with
      | nil => simp at he
      | cons d before =>
        obtain ⟨hd, he⟩ := List.cons.inj he
        cases before with
        | nil => exact absurd (List.cons.inj he).1 hc
        | cons e before =>
          obtain ⟨rfl, hcs⟩ := List.cons.inj he
          rw [← hd, even_backslashesAtEnd_pair]
          exact h.beforeSlash before after hcs
    · exact (even_backslashesAtEnd_pair c cs).mpr h.atEnd

/-- Each backslash of the text has a partner that is no slash, so that every slash keeps the
backslash that was put before it and the text does not end within a pair. -/
theorem closed_guarded_slashes {cs : List Char} (h : EvenBackslashes cs) :
    Closed '/' (guarded isSlash cs) := by
  cases cs with
  | nil => exact closed_nil (by decide)
  | cons c cs =>
    by_cases hback : c = '\\'
    · subst hback
      cases cs with
      | nil => exact absurd h.atEnd (by decide)
      | cons c cs =>
        obtain ⟨hc, hcs⟩ := (evenBackslashes_pair c cs).mp h
        have hkept : isSlash c = false := by simpa [isSlash] using hc
        rw [guarded_of_not_needs (by decide), guarded_of_not_needs hkept]
        exact (closed_guarded_slashes hcs).escaped c
    · have ih := closed_guarded_slashes ((evenBackslashes_cons hback cs).mp h)
      cases hc : isSlash c with
      | true =>
        rw [guarded_of_needs hc]
        exact ih.escaped c
      | false =>
        have hne : c ≠ '/' := by simpa [isSlash] using hc
        rw [guarded_of_not_needs hc]
        exact ih.plain hback hne
termination_by cs.length

end TreeQuery.Quoted
