import TreeQuery.Proofs.Category.Spelling

namespace TreeQuery.Category

/-- The atoms have names and features that can be written. -/
def Legible : Category → Prop
  | atom name features => IsName name ∧ ∀ f ∈ features, IsFeature f
  | functor result _ argument => result.Legible ∧ argument.Legible

theorem Spells.legible {gap : Char → Prop} {level : Level} {c : Category} {cs : List Char}
    (h : Spells gap level c cs) : c.Legible := by
  induction h with
  | atom hname hfeatures => exact ⟨hname, hfeatures⟩
  | parens _ ih => exact ih
  | single _ _ _ ih => exact ih
  | functor _ _ _ _ ihr iha => exact ⟨ihr, iha⟩

theorem legible_of_parse {s : String} {c : Category} (h : parse s = .ok c) : c.Legible :=
  (((parse_iff_spells s).1 c).mp h).legible

/-- A category as it is printed where an operand is called for. -/
def printOperand (c : Category) : List Char :=
  if c.isFunctor then inParens c.print else c.print

theorem print_functor (result : Category) (slash : Slash) (argument : Category) :
    (functor result slash argument).print =
      result.printOperand ++ slash.symbol :: argument.printOperand :=
  rfl

theorem tight_print {c : Category} (h : c.Legible) :
    Tight .chain c c.print ∧ Tight .operand c c.printOperand := by
  induction c with
  | atom name features =>
    have hatom : Tight .operand (atom name features) (atom name features).print := .atom h.1 h.2
    exact ⟨hatom.single, hatom⟩
  | functor result slash argument ihr iha =>
    have hr : Tight .chain result result.printOperand := (ihr h.1).2.single
    have hchain : Tight .chain (functor result slash argument)
        (functor result slash argument).print := hr.functor slash (iha h.2).2
    exact ⟨hchain, .parens hchain⟩

theorem ofText?_print {c : Category} (h : c.Legible) : ofText? c.print = some c :=
  ofText?_eq_some.mpr (tight_print h).1

theorem print_inj {c d : Category} (hc : c.Legible) (hd : d.Legible) :
    c.print = d.print ↔ c = d := by
  constructor
  · intro he
    have hread := ofText?_print hc
    rw [he, ofText?_print hd] at hread
    exact (Option.some.inj hread).symm
  · rintro rfl
    rfl

theorem toText_inj {c d : Category} (hc : c.Legible) (hd : d.Legible) :
    c.toText = d.toText ↔ c = d := by
  rw [toText, toText, String.ofList_inj, print_inj hc hd]

theorem parse_of_legible {c : Category} (h : c.Legible) : parse c.toText = .ok c := by
  rw [parse, toText, String.toList_ofList, ofText?_print h]

/-- A category that can be written is read back from its printed form, and every category that was
read can be written. Hence texts are of equal categories exactly if these are printed alike, and
what is printed is printed again as it stands. -/
theorem toText_canonical :
    (∀ c : Category, c.Legible → parse c.toText = .ok c) ∧
    (∀ s c, parse s = .ok c → c.Legible) ∧
    (∀ s s' c d, parse s = .ok c → parse s' = .ok d → (c = d ↔ c.toText = d.toText)) ∧
    ∀ s c, parse s = .ok c → (parse c.toText).map toText = .ok c.toText := by
  refine ⟨fun _ => parse_of_legible, fun _ _ => legible_of_parse, ?_, ?_⟩
  · intro s s' c d hc hd
    exact (toText_inj (legible_of_parse hc) (legible_of_parse hd)).symm
  · intro s c hc
    rw [parse_of_legible (legible_of_parse hc)]
    rfl

/-- The category of an auxiliary verb. -/
def auxiliary : Category :=
  .functor (.functor (.atom "S" ["dcl"]) .backward (.atom "NP" [])) .forward
    (.functor (.atom "S" ["b"]) .backward (.atom "NP" []))

/-- What is left of it without the parentheses: the argument falls apart. -/
def unparenthesized : Category :=
  .functor (.functor (.functor (.atom "S" ["dcl"]) .backward (.atom "NP" [])) .forward
    (.atom "S" ["b"])) .backward (.atom "NP" [])

theorem toText_canonical_auxiliary :
    parse "((S[dcl])\\(NP))/((S[b]\\NP))" = .ok auxiliary ∧
      parse "S[dcl]\\NP/S[b]\\NP" = .ok unparenthesized ∧
      auxiliary.Legible ∧ parse auxiliary.toText = .ok auxiliary ∧
      (auxiliary = unparenthesized ↔ auxiliary.toText = unparenthesized.toText) ∧
      (parse unparenthesized.toText).map toText = .ok unparenthesized.toText := by
  obtain ⟨hread, hlegible, hequal, hagain⟩ := toText_canonical
  have h : parse "((S[dcl])\\(NP))/((S[b]\\NP))" = .ok auxiliary := by decide +kernel
  have h' : parse "S[dcl]\\NP/S[b]\\NP" = .ok unparenthesized := by decide +kernel
  have hc : auxiliary.Legible := hlegible _ _ h
  exact ⟨h, h', hc, hread _ hc, hequal _ _ _ _ h h', hagain _ _ h'⟩

end TreeQuery.Category
