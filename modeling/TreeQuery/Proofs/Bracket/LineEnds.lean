import TreeQuery.Proofs.Bracket.Grammar
import TreeQuery.Proofs.Text.LineEnds

namespace TreeQuery

open Text

/-- A lexeme that can be seen, and has no gap in it. -/
def Lexeme.Solid : Lexeme → Prop
  | .sign s | .text s => s.toList ≠ [] ∧ ∀ c ∈ s.toList, isBlank c = false

namespace Bracket

theorem IsWord.solid {s : String} (h : IsWord s) : (Lexeme.text s).Solid :=
  ⟨h.1, fun c hc => (h.2 c hc).1⟩

theorem IsField.solid {s : String} (h : IsField s) : (Lexeme.text s).Solid :=
  ⟨h.1, fun c hc => (h.2 c hc).1⟩

theorem solid_option {s : Option String} (h : ∀ x ∈ s, (Lexeme.text x).Solid) :
    ∀ l ∈ s.toList.map Lexeme.text, l.Solid := by
  intro l hl
  obtain ⟨x, hx, rfl⟩ := List.mem_map.mp hl
  exact h x (Option.mem_toList.mp hx)

theorem solid_lexemesAll {bs : List Bracket} (h : ∀ b ∈ bs, ∀ l ∈ b.lexemes, l.Solid) :
    ∀ l ∈ lexemesAll bs, l.Solid := by
  induction bs with
  | nil => exact fun _ hl => absurd hl List.not_mem_nil
  | cons b bs ih =>
    obtain ⟨hb, hbs⟩ := List.forall_mem_cons.mp h
    exact List.forall_mem_append.mpr ⟨hb, ih hbs⟩

/-- Whatever a bracket is written with can be seen. -/
theorem Proper.solid {b : Bracket} (h : b.Proper) : ∀ l ∈ b.lexemes, l.Solid := by
  have hsign : ∀ s ∈ ["(", ")", "<L", "<T", ">"], (Lexeme.sign s).Solid := by
    intro s hs
    simp only [List.mem_cons, List.not_mem_nil, or_false] at hs
    rcases hs with rfl | rfl | rfl | rfl | rfl <;> simp [Lexeme.Solid, isBlank]
  have hopen := hsign "(" (by simp)
  have hclose := hsign ")" (by simp)
  have hend := hsign ">" (by simp)
  have hnil : ∀ l ∈ ([] : List Lexeme), l.Solid := fun _ hl => absurd hl List.not_mem_nil
  induction h with
  | leaf hl hw =>
    simp only [lexemes, List.forall_mem_cons]
    exact ⟨hopen, hl.1.solid, hw.solid, hclose, hnil⟩
  | phrase hl _ _ ih =>
    have hlabel := solid_option fun s hs => (hl s hs).1.solid
    simp only [lexemes, List.forall_mem_cons, List.forall_mem_append, List.cons_append]
    exact ⟨hopen, ⟨hlabel, solid_lexemesAll ih⟩, hclose, hnil⟩
  | lexical hc hp hf hw hpred =>
    have hpredicate := solid_option fun s hs => (hpred s hs).solid
    simp only [lexemes, List.forall_mem_cons, List.forall_mem_append, List.cons_append]
    exact ⟨hopen, hsign "<L" (by simp), hc.solid, hp.solid, hf.solid, hw.solid,
      ⟨hnil, hpredicate⟩, hend, hclose, hnil⟩
  | derived hc hh ha _ _ ih =>
    have hhead := (Token.isField_of_isNumeral hh).solid
    have harity := (Token.isField_of_isNumeral ha).solid
    simp only [lexemes, List.forall_mem_cons, List.forall_mem_append, List.cons_append]
    exact ⟨hopen, hsign "<T" (by simp), hc.solid, hhead, harity, hend,
      ⟨hnil, solid_lexemesAll ih⟩, hclose, hnil⟩

end Bracket

namespace Spaced

variable {ls : List Lexeme} {cs : List Char}

theorem plain_lexeme {gap w : List Char} (hne : w ≠ []) (hw : ∀ c ∈ w, isBlank c = false)
    (cs : List Char) : Line.plain (gap ++ (w ++ cs)) = Line.plain gap ++ (w ++ Line.plain cs) := by
  have hhead : (w ++ cs).head? ≠ some '\n' := by
    obtain ⟨c, w, rfl⟩ := List.exists_cons_of_ne_nil hne
    intro h
    cases h
    exact absurd (hw '\n' List.mem_cons_self) (by decide)
  rw [Line.plain_append hhead, Line.plain_visible_append hw]

theorem plain (h : Spaced ls cs) (hls : ∀ l ∈ ls, l.Solid) : Spaced ls (Line.plain cs) := by
  induction h with
  | done hg => exact .done (Line.blanks_plain.mpr hg)
  | @sign _ s _ _ hg _ ih =>
    obtain ⟨⟨hne, hs⟩, hrest⟩ := List.forall_mem_cons.mp hls
    rw [plain_lexeme (w := s.toList) hne hs]
    exact .sign (Line.blanks_plain.mpr hg) (ih hrest)
  | @text _ s _ _ hg _ hblank ih =>
    obtain ⟨⟨hne, hs⟩, hrest⟩ := List.forall_mem_cons.mp hls
    rw [plain_lexeme (w := s.toList) hne hs]
    exact .text (Line.blanks_plain.mpr hg) (ih hrest) fun hl =>
      Line.startsBlank_plain.mpr (hblank hl)

/-- A lexeme is found in the text where it is found without the carriage returns. -/
theorem exists_lexeme_of_plain {gap w rest : List Char} (hg : Blanks gap)
    (hw : ∀ c ∈ w, isBlank c = false) (h : Line.plain cs = gap ++ (w ++ rest)) :
    ∃ gap' rest', Blanks gap' ∧ cs = gap' ++ (w ++ rest') ∧ Line.plain rest' = rest := by
  obtain ⟨gap', after, rfl, hgap, hafter⟩ := Line.exists_append_of_plain h
  obtain ⟨w', rest', rfl, hword, hrest⟩ := Line.exists_append_of_plain hafter
  obtain rfl : w' = w := Line.eq_of_plain_visible hword hw
  exact ⟨gap', rest', Line.blanks_plain.mp (hgap ▸ hg), rfl, hrest⟩

theorem of_plain (h : Spaced ls (Line.plain cs)) (hls : ∀ l ∈ ls, l.Solid) : Spaced ls cs := by
  induction ls generalizing cs with
  | nil =>
    cases h with
    | done hg => exact .done (Line.blanks_plain.mp hg)
  | cons l ls ih =>
    obtain ⟨hl, hrest⟩ := List.forall_mem_cons.mp hls
    cases l with
    | sign s =>
      obtain ⟨_, hs⟩ := hl
      obtain ⟨gap, rest, hg, he, hr⟩ := sign_iff.mp h
      obtain ⟨gap', rest', hg', rfl, rfl⟩ := exists_lexeme_of_plain hg hs he
      exact .sign hg' (ih hr hrest)
    | text s =>
      obtain ⟨_, hs⟩ := hl
      obtain ⟨gap, rest, hg, he, hr, hblank⟩ := text_iff.mp h
      obtain ⟨gap', rest', hg', rfl, rfl⟩ := exists_lexeme_of_plain hg hs he
      exact .text hg' (ih hr hrest) fun hs => Line.startsBlank_plain.mp (hblank hs)

end Spaced

theorem Bracket.spelled_plain {b : Bracket} {cs : List Char} :
    b.Spelled (Line.plain cs) ↔ b.Spelled cs :=
  and_congr_right fun hb => ⟨fun h => h.of_plain hb.solid, fun h => h.plain hb.solid⟩

theorem Tree.ofChars_plain (cs : List Char) : Tree.ofChars (Line.plain cs) = Tree.ofChars cs := by
  have h : Bracket.ofText? (Line.plain cs) = Bracket.ofText? cs := by
    apply Option.ext
    intro b
    rw [Bracket.ofText?_eq_some, Bracket.ofText?_eq_some]
    exact Bracket.spelled_plain
  rw [Tree.ofChars, Tree.ofChars, h]

end TreeQuery
