import TreeQuery.Tree.Basic

namespace TreeQuery.Tree

/-- The ancestors of a node, nearest first, over at most `steps` links. -/
def climb (t : Tree) : Nat → NodeId → List NodeId
  | 0, _ => []
  | steps + 1, id =>
    match t.parent? id with
    | some p => p :: t.climb steps p
    | none => []

def ancestors (t : Tree) (id : NodeId) : List NodeId :=
  t.climb t.size id

/-- The topmost ancestor, which is the node itself if it has no parent. -/
def top (t : Tree) (id : NodeId) : NodeId :=
  (t.ancestors id).getLast?.getD id

/-- The head of a node, the head of that one, and so on, over at most `steps` links. -/
def headsFrom (t : Tree) : Nat → NodeId → List NodeId
  | 0, _ => []
  | steps + 1, id =>
    match t.head? id with
    | some h => h :: t.headsFrom steps h
    | none => []

def headChain (t : Tree) (id : NodeId) : List NodeId :=
  t.headsFrom t.size id

/-- The subtree of `id`, at most `depth` nodes deep, in pre-order, in front of `pending`. -/
def preorderFrom (t : Tree) : Nat → NodeId → List NodeId → List NodeId
  | 0, _, pending => pending
  | depth + 1, id, pending => id :: (t.children id).foldr (t.preorderFrom depth) pending

/-- A node, then the subtrees of its children from left to right. A node that hangs from several
others is met once for each. -/
def preorder (t : Tree) (id : NodeId) : List NodeId :=
  t.preorderFrom (t.size + 1) id []

/-- The childless nodes of a subtree from left to right. -/
def leaves (t : Tree) (id : NodeId) : List NodeId :=
  (t.preorder id).filter t.isLeaf

/-- One step of a walk in pre-order that keeps the subtrees it has not begun, the next one first:
the node that is met, and what is left after it. -/
def preorderStep (t : Tree) : List NodeId → Except BrokenLink (Option (NodeId × List NodeId))
  | [] => .ok none
  | id :: pending => (t.get id).map fun n => some (id, n.children ++ pending)

/-- Whether the number of a walk's step leads to a node. -/
def visit (t : Tree) (id : NodeId) : Except BrokenLink NodeId :=
  (t.get id).map fun _ => id

/-- A walk all of whose steps lead to nodes. -/
def visitAll (t : Tree) (ids : List NodeId) : Except BrokenLink (List NodeId) :=
  ids.mapM t.visit

end TreeQuery.Tree
