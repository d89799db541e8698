import TreeQuery.Unicode.Tables

namespace TreeQuery

open Unicode

inductive CharClass
  | empty
  | range (first last : Char)
  | property (p : Property)
  | union (a b : CharClass)
  | inter (a b : CharClass)
  | diff (a b : CharClass)
  | symmDiff (a b : CharClass)
  | compl (a : CharClass)
  /-- The case variants of the members. -/
  | folded (a : CharClass)
deriving DecidableEq

namespace CharClass

def contains [Tables] : CharClass → Char → Bool
  | empty, _ => false
  | range first last, c => first ≤ c && c ≤ last
  | property p, c => p.holds c
  | union a b, c => a.contains c || b.contains c
  | inter a b, c => a.contains c && b.contains c
  | diff a b, c => a.contains c && !b.contains c
  | symmDiff a b, c => a.contains c != b.contains c
  | compl a, c => !a.contains c
  | folded a, c => (Tables.caseVariants c).any a.contains

def single (c : Char) : CharClass :=
  range c c

def ofRanges (rs : List (Char × Char)) : CharClass :=
  rs.foldr (fun (first, last) a => union (range first last) a) empty

def ascii : CharClass :=
  range '\x00' '\x7f'

/-- The fourteen classes of ASCII characters that go by a name between colons. -/
def posix : List (String × CharClass) :=
  [("alnum", ofRanges [('0', '9'), ('A', 'Z'), ('a', 'z')]),
   ("alpha", ofRanges [('A', 'Z'), ('a', 'z')]),
   ("ascii", ascii),
   ("blank", ofRanges [('\t', '\t'), (' ', ' ')]),
   ("cntrl", ofRanges [('\x00', '\x1f'), ('\x7f', '\x7f')]),
   ("digit", ofRanges [('0', '9')]),
   ("graph", ofRanges [('!', '~')]),
   ("lower", ofRanges [('a', 'z')]),
   ("print", ofRanges [(' ', '~')]),
   ("punct", ofRanges [('!', '/'), (':', '@'), ('[', '\x60'), ('\x7b', '~')]),
   ("space", ofRanges [('\t', '\r'), (' ', ' ')]),
   ("upper", ofRanges [('A', 'Z')]),
   ("word", ofRanges [('0', '9'), ('A', 'Z'), ('_', '_'), ('a', 'z')]),
   ("xdigit", ofRanges [('0', '9'), ('A', 'F'), ('a', 'f')])]

end CharClass

end TreeQuery
