import TreeQuery.Pattern.Operator
import TreeQuery.Proofs.Text.Numeral

namespace TreeQuery.Operator

/-- The fixed symbols and their operators. -/
def fixedSymbols : List (String × Operator) :=
  [("<", child), ("<<", descendant), ("<1", firstChild), ("<2", secondChild), ("<%", everyChild),
   (">", parent), (">>", ancestor), (".", nextLeaf), ("..", laterLeaf), ("$", sibling),
   ("$.", nextSibling), ("$..", laterSibling), ("&", self), ("<#", head), ("<<#", headChain)]

/-- The signs that stand before a number. -/
def numberSigns : List (String × (UInt64 → Operator)) :=
  [("##", headIndex), ("#<", childCount), ("<", nthChild)]

/-- A fixed symbol denotes its operator. Any other symbol is a sign with the numeral, maybe with
leading zeros, of a number below 2^64. -/
inductive Denotes : String → Operator → Prop
  | fixed {symbol op} : (symbol, op) ∈ fixedSymbols → Denotes symbol op
  | numbered {sign make digits} : (∀ op, (sign ++ digits, op) ∉ fixedSymbols) →
      (sign, make) ∈ numberSigns → digits ≠ "" → (∀ c ∈ digits.toList, c.isDigit = true) →
      Numeral.value digits.toList < 2 ^ 64 →
      Denotes (sign ++ digits) (make (.ofNat (Numeral.value digits.toList)))

theorem mem_fixedSymbols {symbol : String} {op : Operator} :
    (symbol, op) ∈ fixedSymbols ↔ op ∈ plain ∧ op.symbol = symbol := by
  have htable : fixedSymbols = plain.map fun op => (op.symbol, op) := rfl
  simp only [htable, List.mem_map, Prod.mk.injEq]
  constructor
  · intro ⟨_, hm, he, hop⟩
    exact hop ▸ ⟨hm, he⟩
  · intro ⟨hm, he⟩
    exact ⟨op, hm, he, rfl⟩

theorem plain?_eq_some {symbol : String} {op : Operator} :
    plain? symbol = some op ↔ (symbol, op) ∈ fixedSymbols := by
  have hfound : ∀ op ∈ plain, plain? op.symbol = some op := by decide
  rw [mem_fixedSymbols]
  constructor
  · intro h
    exact ⟨List.mem_of_find?_eq_some h, by simpa using List.find?_some h⟩
  · intro ⟨hm, he⟩
    rw [← he, hfound op hm]

theorem numbered?_eq_some {cs : List Char} {op : Operator} :
    numbered? cs = some op ↔ ∃ sign make digits n, (sign, make) ∈ numberSigns ∧
      cs = sign.toList ++ digits ∧ Numeral.read? digits = some n ∧ make n = op := by
  constructor
  · intro h
    unfold numbered? at h
    split at h
    · obtain ⟨n, hn, he⟩ := Option.map_eq_some_iff.mp h
      exact ⟨"##", headIndex, _, n, by simp [numberSigns], rfl, hn, he⟩
    · obtain ⟨n, hn, he⟩ := Option.map_eq_some_iff.mp h
      exact ⟨"#<", childCount, _, n, by simp [numberSigns], rfl, hn, he⟩
    · obtain ⟨n, hn, he⟩ := Option.map_eq_some_iff.mp h
      exact ⟨"<", nthChild, _, n, by simp [numberSigns], rfl, hn, he⟩
    · cases h
  · intro ⟨sign, make, digits, n, hm, hcs, hn, he⟩
    simp only [numberSigns, List.mem_cons, List.not_mem_nil, or_false, Prod.mk.injEq] at hm
    obtain ⟨rfl, rfl⟩ | ⟨rfl, rfl⟩ | ⟨rfl, rfl⟩ := hm <;>
      simp [hcs, numbered?, hn, he]

/-- A text is looked up among the fixed symbols first. -/
theorem parse_eq_ok_iff {symbol : String} {op : Operator} :
    parse symbol = .ok op ↔ plain? symbol = some op ∨
      plain? symbol = none ∧ numbered? symbol.toList = some op := by
  rw [← Option.or_eq_some_iff, parse]
  cases (plain? symbol).or (numbered? symbol.toList) <;> simp

/-- A text is read as the operator that it denotes. -/
theorem parse_eq_ok {symbol : String} {op : Operator} :
    parse symbol = .ok op ↔ Denotes symbol op := by
  have hnone : plain? symbol = none ↔ ∀ op, (symbol, op) ∉ fixedSymbols := by
    simp only [← plain?_eq_some, Option.eq_none_iff_forall_ne_some, ne_eq]
  rw [parse_eq_ok_iff, plain?_eq_some, hnone, numbered?_eq_some]
  constructor
  · intro h
    rcases h with hfixed | ⟨hno, sign, make, digits, n, hm, hcs, hn, rfl⟩
    · exact .fixed hfixed
    · obtain ⟨hne, hdigits, hlt, rfl⟩ := Numeral.read?_eq_some_iff_value.mp hn
      obtain ⟨text, rfl⟩ : ∃ text : String, digits = text.toList :=
        ⟨String.ofList digits, String.toList_ofList.symm⟩
      obtain rfl : symbol = sign ++ text := by
        rw [← String.toList_inj, String.toList_append, hcs]
      exact .numbered hno hm (by simpa using hne) hdigits hlt
  · intro h
    cases h with
    | fixed hfixed => exact .inl hfixed
    | @numbered sign make digits hno hm hne hdigits hlt =>
      refine .inr ⟨hno, sign, make, digits.toList, _, hm, String.toList_append, ?_, rfl⟩
      exact Numeral.read?_eq_some_iff_value.mpr ⟨by simpa using hne, hdigits, hlt, rfl⟩

theorem parse_eq_error {symbol : String} :
    parse symbol = .error ⟨symbol⟩ ↔ ∀ op, ¬ Denotes symbol op := by
  simp only [← parse_eq_ok]
  rw [parse]
  cases (plain? symbol).or (numbered? symbol.toList) <;> simp

/-- The characters that symbols begin with. -/
def leads : List Char :=
  ['<', '>', '.', '$', '&', '#']

theorem lead_of_fixed : ∀ fixed ∈ fixedSymbols, ∃ c ∈ leads, fixed.1.toList.head? = some c := by
  simp [fixedSymbols, leads]

theorem lead_of_sign : ∀ sign ∈ numberSigns, ∃ c ∈ leads, sign.1.toList.head? = some c := by
  simp [numberSigns, leads]

theorem lead_of_numbered {sign : String × (UInt64 → Operator)} (h : sign ∈ numberSigns)
    (digits : String) : ∃ c ∈ leads, (sign.1 ++ digits).toList.head? = some c := by
  obtain ⟨c, hc, he⟩ := lead_of_sign sign h
  exact ⟨c, hc, by simp [String.toList_append, List.head?_append, he]⟩

theorem Denotes.lead {symbol : String} {op : Operator} (h : Denotes symbol op) :
    ∃ c ∈ leads, symbol.toList.head? = some c := by
  cases h with
  | fixed hfixed => exact lead_of_fixed _ hfixed
  | numbered _ hm _ _ _ => exact lead_of_numbered hm _

/-- An operator is a plain one, or its symbol is a sign and a numeral. -/
theorem symbol_cases (op : Operator) : op ∈ plain ∨ ∃ sign make n,
    (sign, make) ∈ numberSigns ∧ op = make n ∧ op.symbol = sign ++ Numeral.print n := by
  cases op with
  | nthChild n => exact .inr ⟨"<", nthChild, n, by simp [numberSigns], rfl, rfl⟩
  | childCount n => exact .inr ⟨"#<", childCount, n, by simp [numberSigns], rfl, rfl⟩
  | headIndex n => exact .inr ⟨"##", headIndex, n, by simp [numberSigns], rfl, rfl⟩
  | _ => exact .inl (by decide)

theorem symbol_lead (op : Operator) : ∃ c ∈ leads, op.symbol.toList.head? = some c := by
  rcases op.symbol_cases with hplain | ⟨sign, make, n, hm, _, he⟩
  · exact lead_of_fixed (op.symbol, op) (mem_fixedSymbols.mpr ⟨hplain, rfl⟩)
  · exact he ▸ lead_of_numbered hm _

/-- Only two fixed symbols look like a sign with a number. -/
theorem shared_of_fixed : ∀ fixed ∈ fixedSymbols, ∀ op ∈ numbered? fixed.1.toList,
    op = nthChild 1 ∨ op = nthChild 2 := by
  decide

theorem parse_symbol {op : Operator} (h₁ : op ≠ nthChild 1) (h₂ : op ≠ nthChild 2) :
    parse op.symbol = .ok op := by
  rw [parse_eq_ok_iff]
  rcases op.symbol_cases with hplain | ⟨sign, make, n, hm, rfl, he⟩
  · exact .inl (plain?_eq_some.mpr (mem_fixedSymbols.mpr ⟨hplain, rfl⟩))
  · have hread : numbered? (make n).symbol.toList = some (make n) := by
      rw [he, numbered?_eq_some]
      exact ⟨sign, make, _, n, hm, String.toList_append, Numeral.read?_print n, rfl⟩
    refine .inr ⟨?_, hread⟩
    rw [Option.eq_none_iff_forall_ne_some]
    intro op hop
    rcases shared_of_fixed _ (plain?_eq_some.mp hop) _ hread with h | h
    · exact h₁ h
    · exact h₂ h

end TreeQuery.Operator
