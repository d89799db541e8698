import TreeQuery.Category.Basic

namespace TreeQuery

abbrev NodeId := Nat

/-- What a node says of itself, whatever its place in the tree. -/
structure Mark where
  label : String
  /-- The lexical item of a leaf. -/
  word : Option String
  /-- The part-of-speech tag of a derivation's leaf. -/
  pos : Option String
  category : Option Category
  /-- The position of the head among the children. -/
  headIndex : Option UInt64
deriving DecidableEq

namespace Mark

def bare (label : String) : Mark := ⟨label, none, none, none, none⟩

/-- Marks agree if their categories are equal or, where neither has one, their labels are. -/
def agrees (a b : Mark) : Bool :=
  match a.category, b.category with
  | some c, some d => c = d
  | none, none => a.label = b.label
  | _, _ => false

end Mark

structure Node extends Mark where
  id : NodeId
  parent : Option NodeId
  children : List NodeId
deriving DecidableEq

namespace Node

/-- A node with neither parent nor children. -/
def loose (id : NodeId) (mark : Mark) : Node :=
  { mark with id, parent := none, children := [] }

def isLeaf (n : Node) : Bool :=
  n.children.isEmpty

/-- The child that the head index points at, if it points at one. -/
def head? (n : Node) : Option NodeId :=
  n.headIndex.bind fun i => n.children[i.toNat]?

/-- The lexical item, as long as nothing hangs from the node. -/
def leafWord? (n : Node) : Option String :=
  if n.isLeaf then n.word else none

end Node

/-- A link to a node that is not there, or to a place beyond a node's children. -/
inductive BrokenLink
  | noNode (id : NodeId)
  | noSlot (parent : NodeId) (slot : Nat)
deriving DecidableEq

structure Tree where
  nodes : Array Node
  root : Option NodeId
deriving DecidableEq

namespace Tree

def empty : Tree := ⟨#[], none⟩

def size (t : Tree) : Nat :=
  t.nodes.size

def get? (t : Tree) (id : NodeId) : Option Node :=
  t.nodes[id]?

/-- The node with this number, where there has to be one. -/
def get (t : Tree) (id : NodeId) : Except BrokenLink Node :=
  match t.get? id with
  | some n => .ok n
  | none => .error (.noNode id)

/-- The children of a node, none for a number without a node. -/
def children (t : Tree) (id : NodeId) : List NodeId :=
  ((t.get? id).map Node.children).getD []

def parent? (t : Tree) (id : NodeId) : Option NodeId :=
  (t.get? id).bind Node.parent

def head? (t : Tree) (id : NodeId) : Option NodeId :=
  (t.get? id).bind Node.head?

def isLeaf (t : Tree) (id : NodeId) : Bool :=
  (t.children id).isEmpty

end Tree

end TreeQuery
