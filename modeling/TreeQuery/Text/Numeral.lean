namespace TreeQuery.Numeral

/-- A numeral is a nonempty run of ASCII digits. -/
def isNumeral (cs : List Char) : Bool :=
  !cs.isEmpty && cs.all Char.isDigit

def read? (cs : List Char) : Option UInt64 :=
  if isNumeral cs then
    if h : Nat.ofDigitChars 10 cs 0 < UInt64.size then some (UInt64.ofNatLT _ h) else none
  else none

/-- The shortest numeral of a number. -/
def print (n : UInt64) : String :=
  toString n.toNat

end TreeQuery.Numeral
