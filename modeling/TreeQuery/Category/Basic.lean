namespace TreeQuery

inductive Slash
  | forward
  | backward
  | either
deriving DecidableEq

def Slash.symbol : Slash → Char
  | forward => '/'
  | backward => '\\'
  | either => '|'

def Slash.ofSymbol? : Char → Option Slash
  | '/' => some forward
  | '\\' => some backward
  | '|' => some either
  | _ => none

inductive Category
  | atom (name : String) (features : List String)
  | functor (result : Category) (slash : Slash) (argument : Category)
deriving DecidableEq

namespace Category

def isFunctor : Category → Bool
  | atom _ _ => false
  | functor _ _ _ => true

def printFeature (feature : String) : List Char :=
  '[' :: feature.toList ++ [']']

def inParens (cs : List Char) : List Char :=
  '(' :: cs ++ [')']

def print : Category → List Char
  | atom name features => name.toList ++ features.flatMap printFeature
  | functor result slash argument =>
    (if result.isFunctor then inParens result.print else result.print) ++
      slash.symbol :: (if argument.isFunctor then inParens argument.print else argument.print)

/-- The one spelling with parentheses around exactly those operands that are functors. -/
def toText (c : Category) : String :=
  String.ofList c.print

end Category

end TreeQuery
