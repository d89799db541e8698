import Mathlib.Data.Nat.Digits.Defs
import TreeQuery.Text.Numeral

namespace TreeQuery.Numeral

/-- The number that digits denote, the last of them counting the ones. -/
def value (digits : List Char) : Nat :=
  Nat.ofDigits 10 (digits.reverse.map fun c => c.toNat - '0'.toNat)

theorem ofDigitChars_eq_value (digits : List Char) :
    Nat.ofDigitChars 10 digits 0 = value digits := by
  simp only [value, Nat.ofDigits_eq_foldr, List.foldr_map, List.foldr_reverse,
    Nat.ofDigitChars_eq_foldl, Nat.cast_id, Nat.add_comm]

theorem read?_eq_some {cs : List Char} {n : UInt64} :
    read? cs = some n ↔ isNumeral cs = true ∧ Nat.ofDigitChars 10 cs 0 = n.toNat := by
  rw [read?]
  constructor
  · intro h
    split at h
    · rename_i hn
      split at h
      · cases h
        exact ⟨hn, rfl⟩
      · cases h
    · cases h
  · rintro ⟨hn, hv⟩
    have hlt : Nat.ofDigitChars 10 cs 0 < UInt64.size := by
      rw [hv]
      exact n.toNat_lt
    rw [if_pos hn, dif_pos hlt]
    simp [hv]

/-- A numeral is read as its value, if that is below the limit. -/
theorem read?_eq_some_iff_value {cs : List Char} {n : UInt64} :
    read? cs = some n ↔ cs ≠ [] ∧ (∀ c ∈ cs, c.isDigit = true) ∧ value cs < 2 ^ 64 ∧
      n = .ofNat (value cs) := by
  have hnum : isNumeral cs = true ↔ cs ≠ [] ∧ ∀ c ∈ cs, c.isDigit = true := by
    simp [isNumeral]
  rw [read?_eq_some, hnum, ofDigitChars_eq_value, and_assoc]
  apply and_congr_right
  intro _
  apply and_congr_right
  intro _
  constructor
  · intro hv
    rw [hv]
    exact ⟨n.toNat_lt, UInt64.ofNat_toNat.symm⟩
  · intro ⟨hlt, hn⟩
    rw [hn, UInt64.toNat_ofNat_of_lt' hlt]

theorem toList_print (n : UInt64) : (print n).toList = Nat.toDigits 10 n.toNat :=
  Nat.toList_repr

theorem isNumeral_print (n : UInt64) : isNumeral (print n).toList = true := by
  rw [toList_print]
  have hne : Nat.toDigits 10 n.toNat ≠ [] := Nat.toDigits_ne_nil
  have hall : ∀ c ∈ Nat.toDigits 10 n.toNat, c.isDigit = true :=
    fun c hc => Nat.isDigit_of_mem_toDigits (by decide) (by decide) hc
  simpa [isNumeral, hne] using hall

theorem read?_print (n : UInt64) : read? (print n).toList = some n := by
  refine read?_eq_some.mpr ⟨isNumeral_print n, ?_⟩
  rw [toList_print, Nat.ofDigitChars_ten_toDigits]

end TreeQuery.Numeral
