import TreeQuery.Bracket.Fault
import TreeQuery.Category.Reader
import TreeQuery.Text.Numeral
import TreeQuery.Tree.Basic

namespace TreeQuery

inductive Bracket
  | leaf (label word : String)
  | phrase (label : Option String) (children : List Bracket)
  | lexical (category pos formerPos word : String) (predicate : Option String)
  | derived (category head arity : String) (children : List Bracket)

/-- A tree without numbers for its nodes. -/
inductive Constituent
  | node (mark : Mark) (children : List Constituent)

namespace Bracket

def category? (text : String) : Except Fault Category :=
  (Category.parse text).mapError fun e => .notACategory e.input

def headIndex? (text : String) : Except Fault UInt64 :=
  match Numeral.read? text.toList with
  | some n => .ok n
  | none => .error (.headIndex text)

mutual

/-- The tree that a bracket denotes. Faults are met in pre-order, and in one header the head's
number before the category. -/
def constituent : Bracket → Except Fault Constituent
  | leaf label word => .ok (.node { Mark.bare label with word := some word } [])
  | phrase label children => do
    let children ← constituents children
    return .node (.bare (label.getD "")) children
  | lexical category pos _ word _ => do
    let c ← category? category
    return .node ⟨category, some word, some pos, some c, none⟩ []
  | derived category head _ children => do
    let h ← headIndex? head
    let c ← category? category
    let children ← constituents children
    return .node ⟨category, none, none, some c, some h⟩ children

def constituents : List Bracket → Except Fault (List Constituent)
  | [] => .ok []
  | b :: bs => do
    let c ← b.constituent
    let cs ← constituents bs
    return c :: cs

end

end Bracket

namespace Constituent

mutual

def size : Constituent → Nat
  | node _ children => 1 + sizeAll children

def sizeAll : List Constituent → Nat
  | [] => 0
  | c :: cs => c.size + sizeAll cs

end

/-- The numbers of neighbouring subtrees' topmost nodes, in pre-order from `next` on. -/
def starts (next : NodeId) : List Constituent → List NodeId
  | [] => []
  | c :: cs => next :: starts (next + c.size) cs

mutual

/-- The nodes of a subtree in pre-order, numbered from `id` on. -/
def layout (parent : Option NodeId) (id : NodeId) : Constituent → List Node
  | node mark children =>
    { mark with id, parent, children := starts (id + 1) children } ::
      layoutAll id (id + 1) children

def layoutAll (parent next : NodeId) : List Constituent → List Node
  | [] => []
  | c :: cs => c.layout (some parent) next ++ layoutAll parent (next + c.size) cs

end

/-- The arena in which every node's number is its place in pre-order. -/
def toTree (c : Constituent) : Tree :=
  ⟨(c.layout none 0).toArray, some 0⟩

end Constituent

end TreeQuery
