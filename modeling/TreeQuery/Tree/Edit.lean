import TreeQuery.Tree.Basic

namespace TreeQuery

namespace Tree

/-- Changes the node with this number, if there is one. -/
def modify (t : Tree) (id : NodeId) (f : Node → Node) : Tree :=
  { t with nodes := t.nodes.modify id f }

/-- Changes the node with this number, where there has to be one. -/
def update (t : Tree) (id : NodeId) (f : Node → Node) : Except BrokenLink Tree :=
  (t.get id).map fun _ => t.modify id f

def add (t : Tree) (mark : Mark) : Tree :=
  { t with nodes := t.nodes.push (.loose t.size mark) }

def setRoot (t : Tree) (id : NodeId) : Tree :=
  { t with root := some id }

/-- Makes `child` the last child of `parent`. An earlier parent keeps listing it. -/
def setParent (t : Tree) (child parent : NodeId) : Tree :=
  (t.modify child fun n => { n with parent := some parent }).modify parent fun n =>
    { n with children := n.children ++ [child] }

def setLabel (t : Tree) (id : NodeId) (label : String) : Tree :=
  t.modify id fun n => { n with label }

def setCategory (t : Tree) (id : NodeId) (category : Option Category) : Tree :=
  t.modify id fun n => { n with category }

def setPos (t : Tree) (id : NodeId) (pos : Option String) : Tree :=
  t.modify id fun n => { n with pos }

def setHeadIndex (t : Tree) (id : NodeId) (headIndex : Option UInt64) : Tree :=
  t.modify id fun n => { n with headIndex }

def setChildren (t : Tree) (id : NodeId) (children : List NodeId) : Tree :=
  t.modify id fun n => { n with children }

/-- Unlinks `child` from `parent`, wherever the parent lists it. -/
def unlink (t : Tree) (parent child : NodeId) : Except BrokenLink Tree := do
  let t ← t.update parent fun n => { n with children := n.children.filter (· ≠ child) }
  t.update child fun n => { n with parent := none }

/-- Unlinks a node from its parent. -/
def unlinkFromParent (t : Tree) (id : NodeId) : Except BrokenLink Tree :=
  match t.parent? id with
  | some p => t.unlink p id
  | none => .ok t

/-- Cuts a subtree off; a root that is cut off is no longer the root. -/
def detach (t : Tree) (id : NodeId) : Except BrokenLink Tree := do
  let t ← t.unlinkFromParent id
  return if t.root = some id then { t with root := none } else t

/-- Puts `new` where `parent` lists `old`, if it does. The new child leaves its former parent first,
which may move the slot of the old one; if it was the old one itself, the slot stays what it was. -/
def replaceChild (t : Tree) (parent old new : NodeId) : Except BrokenLink (Tree × Bool) :=
  match (t.children parent).idxOf? old with
  | none => .ok (t, false)
  | some slot => do
    let t ← t.unlinkFromParent new
    let children := t.children parent
    let slot := (children.idxOf? old).getD slot
    if slot < children.length then
      let t := t.setChildren parent (children.set slot new)
      let t ← t.update new fun n => { n with parent := some parent }
      let t ← t.update old fun n => { n with parent := none }
      return (t, true)
    else throw (.noSlot parent slot)

end Tree

inductive Edit
  | addLeaf (label word : String)
  | addInternal (label : String)
  | setRoot (id : NodeId)
  | setParent (child parent : NodeId)
  | setLabel (id : NodeId) (label : String)
  | setCategory (id : NodeId) (category : Option Category)
  | setPos (id : NodeId) (pos : Option String)
  | setHeadIndex (id : NodeId) (headIndex : Option UInt64)
  | replaceChild (parent old new : NodeId)
  | detach (id : NodeId)

/-- What an edit answers: the number of a new node, whether it did anything, or nothing. -/
inductive Edit.Answer
  | added (id : NodeId)
  | replaced (done : Bool)
  | done

def Tree.apply (t : Tree) : Edit → Except BrokenLink (Tree × Edit.Answer)
  | .addLeaf label word => .ok (t.add { Mark.bare label with word := some word }, .added t.size)
  | .addInternal label => .ok (t.add (.bare label), .added t.size)
  | .setRoot id => .ok (t.setRoot id, .done)
  | .setParent child parent => .ok (t.setParent child parent, .done)
  | .setLabel id label => .ok (t.setLabel id label, .done)
  | .setCategory id category => .ok (t.setCategory id category, .done)
  | .setPos id pos => .ok (t.setPos id pos, .done)
  | .setHeadIndex id headIndex => .ok (t.setHeadIndex id headIndex, .done)
  | .replaceChild parent old new =>
    (t.replaceChild parent old new).map fun (t, done) => (t, .replaced done)
  | .detach id => (t.detach id).map (·, .done)

end TreeQuery
