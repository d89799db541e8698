import Mathlib.Data.List.Basic
import TreeQuery.Proofs.Bracket.Arena
import TreeQuery.Proofs.Bracket.LineEnds

namespace TreeQuery

open Text

namespace Spaced

variable {ls : List Lexeme} {cs gap : List Char}

theorem append_blanks (h : Spaced ls cs) (hg : Blanks gap) : Spaced ls (cs ++ gap) := by
  induction h with
  | done hcs => exact .done (hcs.append hg)
  | sign hcs _ ih =>
    rw [List.append_assoc, List.append_assoc]
    exact .sign hcs ih
  | text hcs _ hblank ih =>
    rw [List.append_assoc, List.append_assoc]
    refine .text hcs ih fun ht => ?_
    obtain ⟨c, rest, rfl, hc⟩ := hblank ht
    exact ⟨c, rest ++ gap, rfl, hc⟩

/-- Blanks in front of something that can be seen belong to the gap there. -/
theorem exists_gap_of_blanks {gap' w rest : List Char} (hg : Blanks gap) (hne : w ≠ [])
    (hw : ∀ c ∈ w, isBlank c = false) (he : gap ++ cs = gap' ++ (w ++ rest)) :
    ∃ inner, gap' = gap ++ inner ∧ cs = inner ++ (w ++ rest) := by
  rcases List.append_eq_append_iff.mp he with ⟨inner, rfl, hcs⟩ | ⟨outer, rfl, hrest⟩
  · exact ⟨inner, rfl, hcs⟩
  · cases outer with
    | nil => exact ⟨[], by simp, hrest.symm⟩
    | cons c outer =>
      obtain ⟨d, w, rfl⟩ := List.exists_cons_of_ne_nil hne
      obtain ⟨rfl, _⟩ := List.cons.inj hrest
      have hblank : isBlank d = true := hg d (by simp)
      rw [hw d List.mem_cons_self] at hblank
      cases hblank

theorem of_blanks_append (hls : ∀ l ∈ ls, l.Solid) (hg : Blanks gap) (h : Spaced ls (gap ++ cs)) :
    Spaced ls cs := by
  cases ls with
  | nil =>
    cases h with
    | done hall => exact .done (List.forall_mem_append.mp hall).2
  | cons l ls =>
    obtain ⟨hl, _⟩ := List.forall_mem_cons.mp hls
    cases l with
    | sign s =>
      obtain ⟨gap', rest, hg', he, hrest⟩ := sign_iff.mp h
      obtain ⟨inner, rfl, rfl⟩ := exists_gap_of_blanks hg hl.1 hl.2 he
      exact .sign (List.forall_mem_append.mp hg').2 hrest
    | text s =>
      obtain ⟨gap', rest, hg', he, hrest, hblank⟩ := text_iff.mp h
      obtain ⟨inner, rfl, rfl⟩ := exists_gap_of_blanks hg hl.1 hl.2 he
      exact .text (List.forall_mem_append.mp hg').2 hrest hblank

/-- Blanks at the end come after everything that can be seen. -/
theorem exists_rest_of_blanks {before w rest : List Char} (hg : Blanks gap) (hne : w ≠ [])
    (hw : ∀ c ∈ w, isBlank c = false) (he : cs ++ gap = before ++ (w ++ rest)) :
    ∃ inner, cs = before ++ (w ++ inner) ∧ rest = inner ++ gap := by
  rw [← List.append_assoc] at he
  rcases List.append_eq_append_iff.mp he with ⟨outer, hcs, rfl⟩ | ⟨inner, rfl, hrest⟩
  · cases List.eq_nil_or_concat outer with
    | inl hnil =>
      rw [hnil, List.append_nil] at hcs
      exact ⟨[], by rw [← hcs, List.append_nil], by rw [hnil]; rfl⟩
    | inr hlast =>
      obtain ⟨outer, c, rfl⟩ := hlast
      have hlast := congrArg List.getLast? hcs
      rw [List.getLast?_append_of_ne_nil _ hne, List.concat_eq_append, ← List.append_assoc,
        List.getLast?_concat] at hlast
      have hblank : isBlank c = true := hg c (by simp)
      rw [hw c (List.mem_of_getLast? hlast)] at hblank
      cases hblank
  · exact ⟨inner, List.append_assoc .., hrest⟩

theorem not_spaced_nil (hls : ∀ l ∈ ls, l.Solid) (ht : StartsText ls) : ¬ Spaced ls [] := by
  obtain ⟨s, more, rfl⟩ := ht
  intro h
  obtain ⟨gap, rest, _, he, _⟩ := text_iff.mp h
  obtain ⟨_, hrest⟩ := List.append_eq_nil_iff.mp he.symm
  exact (hls _ List.mem_cons_self).1 (List.append_eq_nil_iff.mp hrest).1

theorem of_append_blanks (hls : ∀ l ∈ ls, l.Solid) (hg : Blanks gap) (h : Spaced ls (cs ++ gap)) :
    Spaced ls cs := by
  induction ls generalizing cs with
  | nil =>
    cases h with
    | done hall => exact .done (List.forall_mem_append.mp hall).1
  | cons l ls ih =>
    obtain ⟨hl, hrest⟩ := List.forall_mem_cons.mp hls
    cases l with
    | sign s =>
      obtain ⟨before, rest, hb, he, hr⟩ := sign_iff.mp h
      obtain ⟨inner, rfl, rfl⟩ := exists_rest_of_blanks hg hl.1 hl.2 he
      exact .sign hb (ih hrest hr)
    | text s =>
      obtain ⟨before, rest, hb, he, hr, hblank⟩ := text_iff.mp h
      obtain ⟨inner, rfl, rfl⟩ := exists_rest_of_blanks hg hl.1 hl.2 he
      have hinner : Spaced ls inner := ih hrest hr
      refine .text hb hinner fun ht => ?_
      obtain ⟨c, tail, hc, hcblank⟩ := hblank ht
      cases inner with
      | nil => exact absurd hinner (not_spaced_nil hrest ht)
      | cons d inner =>
        obtain ⟨rfl, _⟩ := List.cons.inj hc
        exact ⟨d, inner, rfl, hcblank⟩

end Spaced

/-- Blanks on either side make no difference. -/
theorem Tree.ofChars_margins {gap rest : List Char} (hg : Blanks gap) (hr : Blanks rest)
    (cs : List Char) : Tree.ofChars (gap ++ (cs ++ rest)) = Tree.ofChars cs := by
  have h : Bracket.ofText? (gap ++ (cs ++ rest)) = Bracket.ofText? cs := by
    apply Option.ext
    intro b
    rw [Bracket.ofText?_eq_some, Bracket.ofText?_eq_some]
    refine and_congr_right fun hb => ⟨fun h => ?_, fun h => (h.append_blanks hr).blanks hg⟩
    exact (h.of_blanks_append hb.solid hg).of_append_blanks hb.solid hr
  rw [Tree.ofChars, Tree.ofChars, h]

namespace Bracket

namespace Token

variable {opened : Bool} {cs more : List Char}

/-- After the tokens of a text that ends with a closing bracket come those of the text behind it. -/
theorem cut?_extended {ts us : List Token} (hchain : Chain opened (ts ++ [closeBracket]))
    (hspaced : Spaced (spelling (ts ++ [closeBracket])) cs)
    (h : cut? opened (cs ++ more) = some us) :
    ∃ vs gap, us = ts ++ closeBracket :: vs ∧ Blanks gap ∧ Spaced (spelling vs) (gap ++ more) := by
  induction ts generalizing opened cs us with
  | nil =>
    obtain ⟨gap, rest, hg, rfl, hrest⟩ := Spaced.sign_iff.mp hspaced
    cases hrest with
    | done hrest =>
      have hcs : gap ++ (")".toList ++ rest) ++ more = gap ++ ([')'] ++ (rest ++ more)) := by simp
      rw [hcs, cut?_append hg hchain.1 .closeBracket nofun] at h
      obtain ⟨vs, hvs, rfl⟩ := Option.map_eq_some_iff.mp h
      exact ⟨vs, rest, rfl, hrest, (cut?_eq_some.mp hvs).2⟩
  | cons tok ts ih =>
    obtain ⟨hl, hchain⟩ := hchain
    rw [List.cons_append, spelling_cons] at hspaced
    obtain ⟨gap, m, rest, hg, rfl, hm, hrest, hblank⟩ := (spaced_lexemes hl).mp hspaced
    have hne : rest ≠ [] := by
      rintro rfl
      have hcut := cut?_eq_some.mpr ⟨hchain, hrest⟩
      rw [cut?, skipBlanks_blanks blanks_nil] at hcut
      simp at hcut
    have hends : tok.Ends (rest ++ more) := by
      intro hw c hc
      rw [List.head?_append_of_ne_nil _ hne] at hc
      exact hchain.ends_of_blank hrest hblank hw c hc
    have hcs : gap ++ (m ++ rest) ++ more = gap ++ (m ++ (rest ++ more)) := by simp
    rw [hcs, cut?_append hg hl hm hends] at h
    obtain ⟨us, hus, rfl⟩ := Option.map_eq_some_iff.mp h
    obtain ⟨vs, gap, rfl, hgap, hvs⟩ := ih hchain hrest hus
    exact ⟨vs, gap, rfl, hgap, hvs⟩

end Token

/-- A text that spells a bracket cannot be extended by anything else so that it spells one. -/
theorem Spelled.blanks_of_extended {b b' : Bracket} {cs more : List Char} (h : b.Spelled cs)
    (h' : b'.Spelled (cs ++ more)) : Blanks more := by
  obtain ⟨vs, gap, hvs, _, hmore⟩ :=
    Token.cut?_extended h.1.chain_tokens h.spaced_tokens h'.cut?_eq
  have hrun := Reading.run_bracket h'.1 .start
  have htokens : b'.tokens = b.tokens ++ vs := by
    rw [hvs, tokens, List.append_assoc]
    rfl
  rw [htokens, List.foldlM_append, Reading.run_bracket h.1] at hrun
  -- nothing can be read after a whole bracket
  cases vs with
  | nil =>
    cases hmore with
    | done hall => exact (List.forall_mem_append.mp hall).2
  | cons tok vs => cases hrun

end Bracket

theorem Tree.blanks_of_extended {cs more : List Char} {t t' : Tree} (h : Tree.ofChars cs = .ok t)
    (h' : Tree.ofChars (cs ++ more) = .ok t') : Blanks more := by
  obtain ⟨_, _, hspelled, _⟩ := ofChars_eq_ok.mp h
  obtain ⟨_, _, hspelled', _⟩ := ofChars_eq_ok.mp h'
  exact hspelled.blanks_of_extended hspelled'

end TreeQuery
