import TreeQuery.Bracket.Basic

namespace TreeQuery.Bracket

open Text

inductive Token
  | openBracket
  | closeBracket
  | word (text : String)
  | lexical (category pos formerPos word : String) (predicate : Option String)
  | derived (category head arity : String)

namespace Token

def isWordChar (c : Char) : Bool :=
  !isBlank c && c != '(' && c != ')'

/-- The header of a derivation's bracket, after its opening angle bracket: four or five fields for a
leaf, a category and two numerals for an inner node. -/
def header? : List Char → Option (Token × List Char)
  | kind :: cs =>
    match cs.dropWhile (· != '>') with
    | _ :: rest =>
      match kind, (words (cs.takeWhile (· != '>'))).map String.ofList with
      | 'L', [category, pos, formerPos, form] =>
        some (lexical category pos formerPos form none, rest)
      | 'L', [category, pos, formerPos, form, predicate] =>
        some (lexical category pos formerPos form (some predicate), rest)
      | 'T', [category, head, arity] =>
        if Numeral.isNumeral head.toList && Numeral.isNumeral arity.toList then
          some (derived category head arity, rest)
        else none
      | _, _ => none
    | [] => none
  | [] => none

/-- The token at the head of a text. Only directly after an opening bracket does an angle bracket
begin a header. -/
def next? (opened : Bool) : List Char → Option (Token × List Char)
  | [] => none
  | '(' :: cs => some (openBracket, cs)
  | ')' :: cs => some (closeBracket, cs)
  | c :: cs =>
    if opened && c = '<' then header? cs
    else
      let text := c :: cs
      some (word (String.ofList (text.takeWhile isWordChar)), text.dropWhile isWordChar)

def opens : Token → Bool
  | openBracket => true
  | _ => false

def cut? (opened : Bool) (cs : List Char) : Option (List Token) :=
  match skipBlanks cs with
  | [] => some []
  | visible =>
    (next? opened visible).bind fun (token, rest) =>
      if rest.length < cs.length then (cut? token.opens rest).map (token :: ·) else none
termination_by cs.length

end Token

/-- What has been read of an open bracket. -/
inductive Part
  | opened
  | labelled (label : String)
  | complete (leaf : Bracket)
  /-- The children read so far, latest first. -/
  | plain (label : Option String) (children : List Bracket)
  | derivation (category head arity : String) (children : List Bracket)

namespace Part

def child? (b : Bracket) : Part → Option Part
  | opened => some (plain none [b])
  | labelled label => some (plain (some label) [b])
  | complete _ => none
  | plain label children => some (plain label (b :: children))
  | derivation category head arity children => some (derivation category head arity (b :: children))

def close? : Part → Option Bracket
  | complete b => some b
  | plain label children => some (.phrase label children.reverse)
  | derivation _ _ _ [] => none
  | derivation category head arity children => some (.derived category head arity children.reverse)
  | _ => none

end Part

/-- Open brackets, innermost first, or a finished tree. -/
inductive Reading
  | start
  | inside (part : Part) (outer : List Part)
  | finished (b : Bracket)

namespace Reading

def next? : Reading → Token → Option Reading
  | start, .openBracket => some (inside .opened [])
  | inside part outer, .openBracket => some (inside .opened (part :: outer))
  | inside .opened outer, .word text => some (inside (.labelled text) outer)
  | inside (.labelled label) outer, .word text => some (inside (.complete (.leaf label text)) outer)
  | inside .opened outer, .lexical category pos formerPos word predicate =>
    some (inside (.complete (.lexical category pos formerPos word predicate)) outer)
  | inside .opened outer, .derived category head arity =>
    some (inside (.derivation category head arity []) outer)
  | inside part [], .closeBracket => part.close?.map finished
  | inside part (above :: outer), .closeBracket =>
    (part.close?.bind above.child?).map (inside · outer)
  | _, _ => none

def finish? : Reading → Option Bracket
  | finished b => some b
  | _ => none

end Reading

def ofTokens? (tokens : List Token) : Option Bracket :=
  (tokens.foldlM Reading.next? .start).bind Reading.finish?

def ofText? (cs : List Char) : Option Bracket :=
  (Token.cut? false cs).bind ofTokens?

end Bracket

/-- The tree that a text denotes. -/
def Tree.ofChars (cs : List Char) : Except Fault Tree :=
  match Bracket.ofText? cs with
  | none => .error .notBracketed
  | some b => b.constituent.map Constituent.toTree

/-- Reads a tree that begins in the given line; every fault is reported there. -/
def Tree.parseAt (line : Nat) (cs : List Char) : Except ReadError Tree :=
  (Tree.ofChars cs).mapError (.inLine line)

def Tree.parse (text : String) : Except ReadError Tree :=
  Tree.parseAt 1 text.toList

end TreeQuery
