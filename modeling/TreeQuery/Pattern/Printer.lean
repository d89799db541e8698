import TreeQuery.Text.Bare
import TreeQuery.Pattern.Basic

namespace TreeQuery

variable [RegexEngine] [Unicode.Tables]

def Anchor.print : Anchor → List Char
  | any => ['*']
  | label text => if Text.isBare text.toList then text.toList else Quoted.encode text.toList
  | labelMatching re => re.print
  | word text => '^' :: Quoted.encode text.toList
  | wordMatching re => '^' :: re.print
  | category text => '@' :: Quoted.encode text.toList
  | categoryMatching re => '@' :: re.print
  | sameAs var => '=' :: var.toList
  | differentFrom var => '~' :: var.toList
  | capture anchor var => anchor.print ++ '=' :: var.toList

def Anchor.toText (a : Anchor) : String :=
  String.ofList a.print

namespace Pattern

def inBraces (cs : List Char) : List Char :=
  ['{', ' '] ++ cs ++ [' ', '}']

/-- An operand that prints as one item needs no braces around it. -/
def isItem : Pattern → Bool
  | node _ [] => true
  | group _ => true
  | capture _ _ => true
  | _ => false

def isGroup : Pattern → Bool
  | group _ => true
  | _ => false

mutual

def print : Pattern → List Char
  | node a cs => a.print ++ printAll cs
  | related op p =>
    op.symbol.toList ++ ' ' :: (if p.isItem then p.print else inBraces p.print)
  | not p => '!' :: ' ' :: p.print
  | or p q => p.print ++ [' ', '|', ' '] ++ q.print
  | group p => inBraces p.print
  | all cs => '[' :: printAll cs ++ [' ', ']']
  | optional p => '?' :: ' ' :: p.print
  | capture p var => (if p.isGroup then p.print else inBraces p.print) ++ '=' :: var.toList

/-- Each constraint with a space before it. -/
def printAll : List Pattern → List Char
  | [] => []
  | c :: cs => ' ' :: c.print ++ printAll cs

end

def toText (p : Pattern) : String :=
  String.ofList p.print

end Pattern

end TreeQuery
