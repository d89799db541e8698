namespace TreeQuery.Line

/-- Puts a character in front of the first line. -/
def extend {α : Type} (c : α) : List (List α) → List (List α)
  | [] => [[c]]
  | line :: lines => (c :: line) :: lines

def cut {α : Type} [DecidableEq α] (lf cr : α) : List α → List (List α)
  | [] => []
  | c :: cs =>
    if c = lf then [] :: cut lf cr cs
    else if c = cr ∧ cs.head? = some lf then cut lf cr cs
    else extend c (cut lf cr cs)

def ofText (text : List Char) : List (List Char) :=
  cut '\n' '\r' text

/-- The text of a line of bytes, if they are valid UTF-8. -/
def decode (bytes : List UInt8) : Option (List Char) :=
  (String.fromUTF8? ⟨bytes.toArray⟩).map String.toList

def ofBytes (bytes : List UInt8) : List (Option (List Char)) :=
  (cut 10 13 bytes).map decode

/-- The bytes up to the last line feed. -/
def complete (bytes : List UInt8) : List UInt8 :=
  (bytes.reverse.dropWhile (· != 10)).reverse

/-- The lines of bytes after which reading fails. The failure is met in place of the line that has
no end yet. -/
def ofBroken (bytes : List UInt8) : List (Option (List Char)) :=
  ofBytes (complete bytes) ++ [none]

end TreeQuery.Line
