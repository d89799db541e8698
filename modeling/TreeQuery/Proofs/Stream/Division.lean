import Mathlib.Data.List.TakeWhile
import TreeQuery.Proofs.Stream.Chunks
import TreeQuery.Proofs.Text.Runs

namespace TreeQuery

/-- The same fault, found in a text that begins in the given line. -/
def ReadError.atLine (line : Nat) : ReadError → ReadError
  | inLine _ fault => inLine line fault
  | notText => notText

namespace Stream

open Text

/-- Between trees such a line is passed over: it has nothing but white space, or an identifier comes
first. -/
def Separates (line : List Char) : Prop :=
  (∀ c ∈ line, isWhiteSpace c = true) ∨
    ∃ gap, (∀ c ∈ gap, isWhiteSpace c = true) ∧ gap ++ ['I', 'D', '='] <+: line

inductive Piece
  /-- A line between trees, with its line feed. -/
  | separator (text : List Char)
  /-- What stands outside the trees, up to the next tree or line end. -/
  | stretch (text : List Char)
  | lineFeed
  | chunk (text : List Char)
  /-- The last tree, if it has no end. -/
  | unclosed (text : List Char)

namespace Piece

def text : Piece → List Char
  | separator text | stretch text | chunk text | unclosed text => text
  | lineFeed => ['\n']

/-- What a piece contributes that begins in the given line: a tree or its fault for each chunk, and
one fault for each stretch that can be seen and for a tree without an end. -/
def results (line : Nat) : Piece → List (Except ReadError Tree)
  | separator _ | lineFeed => []
  | stretch text =>
    (text.find? fun c => !isWhiteSpace c).toList.map fun c => .error (.inLine line (.stray c))
  | chunk text => [(Tree.parse (.ofList text)).mapError (ReadError.atLine line)]
  | unclosed _ => [.error (.inLine line .unbalanced)]

end Piece

/-- What the pieces contribute one after the other; lines are counted by their line feeds. -/
def results (line : Nat) : List Piece → List (Except ReadError Tree)
  | [] => []
  | p :: ps => p.results line ++ results (line + p.text.count '\n') ps

/-- Where no tree is open: at the beginning of a line, or further on in it. -/
inductive Place
  | lineStart
  | withinLine

/-- The pieces make up the text, which begins in the given place. -/
inductive Divided : Place → List Char → List Piece → Prop
  | done {place} : Divided place [] []
  | separator {line rest ps} : '\n' ∉ line → Separates line → Divided .lineStart rest ps →
      Divided .lineStart (line ++ '\n' :: rest) (.separator (line ++ ['\n']) :: ps)
  | lastSeparator {line} : line ≠ [] → '\n' ∉ line → Separates line →
      Divided .lineStart line [.separator line]
  | line {cs ps} : ¬ Separates (cs.takeWhile (· != '\n')) → Divided .withinLine cs ps →
      Divided .lineStart cs ps
  | lineFeed {rest ps} : Divided .lineStart rest ps →
      Divided .withinLine ('\n' :: rest) (.lineFeed :: ps)
  | stretch {text rest ps} : text ≠ [] → '(' ∉ text → '\n' ∉ text →
      (∀ c ∈ rest.head?, c = '(' ∨ c = '\n') → Divided .withinLine rest ps →
      Divided .withinLine (text ++ rest) (.stretch text :: ps)
  | chunk {text rest ps} : IsChunk text → Divided .withinLine rest ps →
      Divided .withinLine (text ++ rest) (.chunk text :: ps)
  | unclosed {cs} : cs.head? = some '(' → (∀ text, text <+: cs → ¬ IsChunk text) →
      Divided .withinLine cs [.unclosed cs]

section Existence

variable {cs : List Char}

/-- From within a line a text can be divided if shorter texts can. -/
theorem exists_divided_within
    (ih : ∀ ds : List Char, ds.length < cs.length →
      (∃ ps, Divided .withinLine ds ps) ∧ ∃ ps, Divided .lineStart ds ps) :
    ∃ ps, Divided .withinLine cs ps := by
  cases cs with
  | nil => exact ⟨[], .done⟩
  | cons c cs =>
    by_cases hlf : c = '\n'
    · subst hlf
      obtain ⟨ps, hps⟩ := (ih cs (Nat.lt_succ_self _)).2
      exact ⟨_, .lineFeed hps⟩
    by_cases ho : c = '('
    · subst ho
      by_cases hchunk : ∃ text, text <+: '(' :: cs ∧ IsChunk text
      · obtain ⟨text, ⟨rest, he⟩, htext⟩ := hchunk
        have hlen : rest.length < ('(' :: cs).length := by
          have := List.length_pos_of_ne_nil htext.ne_nil
          rw [← he, List.length_append]
          omega
        obtain ⟨ps, hps⟩ := (ih rest hlen).1
        rw [← he]
        exact ⟨_, .chunk htext hps⟩
      · exact ⟨_, .unclosed rfl fun text hp ht => hchunk ⟨text, hp, ht⟩⟩
    · let p := fun d : Char => d != '(' && d != '\n'
      have hc : p c = true := by simp [p, hlf, ho]
      have hlen : ((c :: cs).dropWhile p).length < (c :: cs).length := by
        rw [List.dropWhile_cons_of_pos hc]
        exact Nat.lt_succ_of_le (List.dropWhile_suffix p).length_le
      have hin : ∀ d ∈ (c :: cs).takeWhile p, p d = true :=
        List.all_eq_true.mp List.all_takeWhile
      have hrest : ∀ d ∈ ((c :: cs).dropWhile p).head?, d = '(' ∨ d = '\n' := by
        intro d hd
        have hnot : p d = false := head_dropWhile hd
        by_cases hd' : d = '('
        · exact .inl hd'
        · exact .inr (by simpa [p, hd'] using hnot)
      obtain ⟨ps, hps⟩ := (ih _ hlen).1
      rw [← List.takeWhile_append_dropWhile (p := p) (l := c :: cs)]
      refine ⟨_, .stretch ?_ ?_ ?_ hrest hps⟩
      · simp [List.takeWhile_cons_of_pos hc]
      · exact fun hm => absurd (hin _ hm) (by simp [p])
      · exact fun hm => absurd (hin _ hm) (by simp [p])

theorem takeWhile_line {line : List Char} (h : '\n' ∉ line) (rest : List Char) :
    (line ++ '\n' :: rest).takeWhile (· != '\n') = line := by
  refine takeWhile_run (fun c hc => bne_iff_ne.mpr ?_) fun c hc => ?_
  · rintro rfl
    exact h hc
  · cases hc
    rfl

theorem takeWhile_lastLine {line : List Char} (h : '\n' ∉ line) :
    line.takeWhile (· != '\n') = line := by
  rw [List.takeWhile_eq_self_iff]
  intro c hc
  refine bne_iff_ne.mpr ?_
  rintro rfl
  exact h hc

/-- At the beginning of a line it matters whether the line separates trees. -/
theorem exists_divided_start
    (ih : ∀ ds : List Char, ds.length < cs.length → ∃ ps, Divided .lineStart ds ps)
    (within : ∃ ps, Divided .withinLine cs ps) : ∃ ps, Divided .lineStart cs ps := by
  by_cases hsep : Separates (cs.takeWhile (· != '\n'))
  · by_cases hlf : '\n' ∈ cs
    · obtain ⟨line, rest, rfl, hline⟩ := List.eq_append_cons_of_mem hlf
      have hlen : rest.length < (line ++ '\n' :: rest).length := by
        rw [List.length_append, List.length_cons]
        omega
      rw [takeWhile_line hline rest] at hsep
      obtain ⟨ps, hps⟩ := ih rest hlen
      exact ⟨_, .separator hline hsep hps⟩
    · by_cases hnil : cs = []
      · exact ⟨[], hnil ▸ .done⟩
      · rw [takeWhile_lastLine hlf] at hsep
        exact ⟨_, .lastSeparator hnil hlf hsep⟩
  · obtain ⟨ps, hps⟩ := within
    exact ⟨ps, .line hsep hps⟩

end Existence

/-- Every text can be divided, from either place. -/
theorem exists_divided (cs : List Char) :
    (∃ ps, Divided .withinLine cs ps) ∧ ∃ ps, Divided .lineStart cs ps := by
  induction hn : cs.length using Nat.strong_induction_on generalizing cs with
  | _ n ih =>
    subst hn
    have shorter : ∀ ds : List Char, ds.length < cs.length →
        (∃ ps, Divided .withinLine ds ps) ∧ ∃ ps, Divided .lineStart ds ps :=
      fun ds hlt => ih _ hlt ds rfl
    have within := exists_divided_within shorter
    exact ⟨within, exists_divided_start (fun ds hlt => (shorter ds hlt).2) within⟩

end Stream

end TreeQuery
