import TreeQuery.Bracket.Basic
import TreeQuery.Proofs.Text.Words

namespace TreeQuery

open Text

/-- What a text in brackets is made of: signs, and labels, words and fields between them. -/
inductive Lexeme
  | sign (s : String)
  | text (s : String)

def StartsText (ls : List Lexeme) : Prop :=
  ∃ s more, ls = .text s :: more

/-- The lexemes in turn, with any blanks before, between and after them. Only two texts in a row
need a blank between them. -/
inductive Spaced : List Lexeme → List Char → Prop
  | done {gap} : Blanks gap → Spaced [] gap
  | sign {gap s ls rest} : Blanks gap → Spaced ls rest →
      Spaced (.sign s :: ls) (gap ++ (s.toList ++ rest))
  | text {gap s ls rest} : Blanks gap → Spaced ls rest → (StartsText ls → StartsBlank rest) →
      Spaced (.text s :: ls) (gap ++ (s.toList ++ rest))

namespace Bracket

/-- A word is not empty and has neither blanks nor parentheses. -/
def IsWord (s : String) : Prop :=
  s.toList ≠ [] ∧ ∀ c ∈ s.toList, isBlank c = false ∧ c ≠ '(' ∧ c ≠ ')'

/-- A label is a word that cannot be taken for a header. -/
def IsLabel (s : String) : Prop :=
  IsWord s ∧ s.toList.head? ≠ some '<'

/-- A field of a header is not empty and has neither blanks nor closing angle brackets. -/
def IsField (s : String) : Prop :=
  s.toList ≠ [] ∧ ∀ c ∈ s.toList, isBlank c = false ∧ c ≠ '>'

/-- A bracket that can be written down. -/
inductive Proper : Bracket → Prop
  | leaf {label word} : IsLabel label → IsWord word → Proper (leaf label word)
  | phrase {label children} : (∀ l ∈ label, IsLabel l) → children ≠ [] →
      (∀ b ∈ children, Proper b) → Proper (phrase label children)
  | lexical {category pos formerPos word predicate} : IsField category → IsField pos →
      IsField formerPos → IsField word → (∀ p ∈ predicate, IsField p) →
      Proper (lexical category pos formerPos word predicate)
  | derived {category head arity children} : IsField category →
      Numeral.isNumeral head.toList = true → Numeral.isNumeral arity.toList = true →
      children ≠ [] → (∀ b ∈ children, Proper b) → Proper (derived category head arity children)

mutual

def lexemes : Bracket → List Lexeme
  | leaf label word => [.sign "(", .text label, .text word, .sign ")"]
  | phrase label children =>
    .sign "(" :: label.toList.map .text ++ lexemesAll children ++ [.sign ")"]
  | lexical category pos formerPos word predicate =>
    [.sign "(", .sign "<L", .text category, .text pos, .text formerPos, .text word] ++
      predicate.toList.map .text ++ [.sign ">", .sign ")"]
  | derived category head arity children =>
    [.sign "(", .sign "<T", .text category, .text head, .text arity, .sign ">"] ++
      lexemesAll children ++ [.sign ")"]

def lexemesAll : List Bracket → List Lexeme
  | [] => []
  | b :: bs => b.lexemes ++ lexemesAll bs

end

theorem exists_lexemes (b : Bracket) : ∃ ls, b.lexemes = .sign "(" :: ls := by
  cases b <;> exact ⟨_, rfl⟩

/-- The text is one of the ways to write the bracket. -/
def Spelled (b : Bracket) (cs : List Char) : Prop :=
  b.Proper ∧ Spaced b.lexemes cs

end Bracket

namespace Spaced

variable {ls : List Lexeme} {cs : List Char}

/-- More blanks in front make no difference. -/
theorem blanks {gap : List Char} (hg : Blanks gap) (h : Spaced ls cs) : Spaced ls (gap ++ cs) := by
  cases h with
  | done hcs => exact .done (hg.append hcs)
  | sign hcs h =>
    rw [← List.append_assoc]
    exact .sign (hg.append hcs) h
  | text hcs h hblank =>
    rw [← List.append_assoc]
    exact .text (hg.append hcs) h hblank

theorem sign_iff {s : String} : Spaced (.sign s :: ls) cs ↔
    ∃ gap rest, Blanks gap ∧ cs = gap ++ (s.toList ++ rest) ∧ Spaced ls rest := by
  constructor
  · rintro (_ | ⟨hg, h⟩)
    exact ⟨_, _, hg, rfl, h⟩
  · rintro ⟨gap, rest, hg, rfl, h⟩
    exact .sign hg h

theorem text_iff {s : String} : Spaced (.text s :: ls) cs ↔
    ∃ gap rest, Blanks gap ∧ cs = gap ++ (s.toList ++ rest) ∧ Spaced ls rest ∧
      (StartsText ls → StartsBlank rest) := by
  constructor
  · rintro (_ | _ | ⟨hg, h, hblank⟩)
    exact ⟨_, _, hg, rfl, h, hblank⟩
  · rintro ⟨gap, rest, hg, rfl, h, hblank⟩
    exact .text hg h hblank

/-- Words in front of a sign are as many texts. -/
theorem words {s : String} (h : Spaced (.sign s :: ls) cs) (body : List Char) :
    Spaced (((Text.words body).map String.ofList).map .text ++ .sign s :: ls) (body ++ cs) := by
  induction body using words_induction with
  | blanks gap hgap =>
    rw [words_blanks hgap]
    exact h.blanks hgap
  | word gap w rest hgap hne hw hrest ih =>
    rw [words_append_blanks hgap, words_append_word hne hw hrest, List.append_assoc,
      List.append_assoc]
    have hblank : StartsText (((Text.words rest).map String.ofList).map .text ++ .sign s :: ls) →
        StartsBlank (rest ++ cs) := by
      rintro ⟨t, more, he⟩
      cases rest with
      | nil => cases he
      | cons c rest => exact ⟨c, rest ++ cs, rfl, hrest c rfl⟩
    have htext := Spaced.text (s := String.ofList w) hgap ih hblank
    rwa [String.toList_ofList] at htext

/-- Fields in front of the end of a header are the words there. -/
theorem exists_body {fields : List String} (hf : ∀ f ∈ fields, Bracket.IsField f)
    (h : Spaced (fields.map .text ++ .sign ">" :: ls) cs) :
    ∃ body rest, cs = body ++ '>' :: rest ∧ '>' ∉ body ∧
      (Text.words body).map String.ofList = fields ∧ Spaced ls rest := by
  have hgap {gap : List Char} (hg : Blanks gap) : '>' ∉ gap :=
    fun hm => absurd (hg _ hm) (by decide)
  induction fields generalizing cs with
  | nil =>
    obtain ⟨gap, rest, hg, rfl, hrest⟩ := sign_iff.mp h
    refine ⟨gap, rest, rfl, hgap hg, ?_, hrest⟩
    rw [words_blanks hg]
    rfl
  | cons f fields ih =>
    obtain ⟨⟨hne, hchars⟩, hfields⟩ := List.forall_mem_cons.mp hf
    obtain ⟨gap, after, hg, rfl, hafter, hblank⟩ := text_iff.mp h
    obtain ⟨body, rest, rfl, hbody, rfl, hrest⟩ := ih hfields hafter
    have hhead : ∀ c ∈ body.head?, isBlank c = true := by
      intro c hc
      cases hw : Text.words body with
      | nil => exact blanks_of_words hw c (List.mem_of_mem_head? hc)
      | cons w ws =>
        have hs : StartsBlank (body ++ '>' :: rest) :=
          hblank ⟨String.ofList w, _, by rw [hw]; rfl⟩
        refine hs.head c ?_
        rw [List.head?_append, Option.mem_def.mp hc]
        rfl
    refine ⟨gap ++ (f.toList ++ body), rest, by simp, ?_, ?_, hrest⟩
    · simp only [List.mem_append, not_or]
      exact ⟨hgap hg, fun hm => (hchars _ hm).2 rfl, hbody⟩
    · rw [words_append_blanks hg, words_append_word hne (fun c hc => (hchars c hc).1) hhead,
        List.map_cons, String.ofList_toList]

end Spaced

end TreeQuery
