import TreeQuery.Pattern.Bindings
import TreeQuery.Pattern.Operator

namespace TreeQuery

inductive MatchError
  | unbound (var : String)
  | unsupported (op : Operator)
  /-- A link of the tree leads to no node. -/
  | broken (link : BrokenLink)
deriving DecidableEq

def BrokenLink.message : BrokenLink → String
  | noNode id => "no node " ++ toString id ++ " exists in the tree"
  | noSlot parent slot => "node " ++ toString parent ++ " has no child " ++ toString slot

def MatchError.message : MatchError → String
  | unbound var => "no variable " ++ var ++ " exists in the context"
  | unsupported op => "operator " ++ op.symbol ++ " is not supported"
  | broken link => link.message

structure Outcome where
  answer : Except MatchError Bool
  bindings : Bindings

abbrev Test := Bindings → Outcome

namespace Test

def answer (b : Bool) : Test := fun s => ⟨.ok b, s⟩

def fail (e : MatchError) : Test := fun s => ⟨.error e, s⟩

def yes : Test := answer true

def no : Test := answer false

/-- Asks `b` only if `a` holds. -/
def both (a b : Test) : Test := fun s =>
  match a s with
  | ⟨.ok true, s⟩ => b s
  | o => o

/-- Asks `b` only if `a` does not hold. -/
def either (a b : Test) : Test := fun s =>
  match a s with
  | ⟨.ok false, s⟩ => b s
  | o => o

def all (ts : List Test) : Test := ts.foldr both yes

def any (ts : List Test) : Test := ts.foldr either no

def not (a : Test) : Test := fun s =>
  match a s with
  | ⟨.ok b, s⟩ => ⟨.ok !b, s⟩
  | o => o

/-- Asks `a` for its bindings alone. -/
def optional (a : Test) : Test := fun s =>
  match a s with
  | ⟨.ok _, s⟩ => ⟨.ok true, s⟩
  | o => o

/-- Binds `var` if `a` holds. -/
def capture (a : Test) (var : String) (id : NodeId) : Test := fun s =>
  match a s with
  | ⟨.ok true, s⟩ => ⟨.ok true, s.bind var id⟩
  | o => o

end Test

end TreeQuery
