import TreeQuery.Stream
import TreeQuery.Search
import TreeQuery.Tree.Bracketed

namespace TreeQuery

/-- A text, or the content of a named file; a file that cannot be opened has no content. -/
inductive Source
  | text (text : String)
  | file (name : String) (content : Option (List UInt8))

/-- What a decompressor gives for the content of a file: bytes, and whether it fails after them. -/
structure Inflated where
  bytes : List UInt8
  fails : Bool

def Inflated.lines (i : Inflated) : List (Option (List Char)) :=
  if i.fails then Line.ofBroken i.bytes else Line.ofBytes i.bytes

/-- The decompressor for the files whose names call them compressed. -/
class Gzip where
  inflate : List UInt8 → Inflated

/-- A decompressor to which nothing is compressed. -/
@[reducible]
def Gzip.refusing : Gzip where
  inflate _ := ⟨[], true⟩

namespace Source

/-- The part of a file's name after its last dot, unless the name begins with that dot. -/
def extension? (name : String) : Option String :=
  let after := name.toList.reverse.takeWhile (· != '.')
  let before := (name.toList.reverse.dropWhile (· != '.')).drop 1
  if before.isEmpty then none else some (String.ofList after.reverse)

/-- The trees among the results of reading a stream. -/
def readable (results : List (Except ReadError Tree)) : List Tree :=
  results.filterMap Except.toOption

/-- The trees that can be read. -/
def trees [Gzip] : Source → List Tree
  | text s => readable (Stream.ofText s)
  | file _ none => []
  | file name (some content) =>
    if extension? name = some "gz" then
      readable (Stream.scan 1 none (Gzip.inflate content).lines)
    else readable (Stream.ofBytes content)

end Source

abbrev Treebank := List Source

namespace Treebank

variable [Gzip] [RegexEngine]

def trees (bank : Treebank) : List Tree :=
  bank.flatMap Source.trees

/-- The trees with at least one match, each with its matches. -/
def matchesByTree (bank : Treebank) (p : Pattern) : List (Tree × List Match) :=
  (bank.trees.map fun t => (t, Search.matchesBefore (Search.all p t))).filter fun (_, ms) =>
    !ms.isEmpty

end Treebank

end TreeQuery
