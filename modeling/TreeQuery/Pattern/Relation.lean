import TreeQuery.Tree.Walk
import TreeQuery.Pattern.Test

namespace TreeQuery

/-- Where an operator leads from a node. A step that a walk cannot take is an error, met only when
the steps before it have been tried. -/
inductive Reach
  /-- One of these satisfies the operand. -/
  | some (steps : List (Except BrokenLink NodeId))
  /-- All of these satisfy the operand. -/
  | every (ids : List NodeId)
  | decided (holds : Bool)
  | unsupported

namespace Tree

/-- The steps of a walk, each checked to lead to a node. -/
def steps (t : Tree) (ids : List NodeId) : List (Except BrokenLink NodeId) :=
  ids.map t.visit

/-- The leaves after `leaf` among all leaves below its topmost ancestor. The walk begins at the
first leaf, and a broken link on the way to `leaf` ends it. -/
def laterLeaves (t : Tree) (leaf : NodeId) : List (Except BrokenLink NodeId) :=
  let leaves := t.leaves (t.top leaf)
  let before := leaves.takeWhile (· ≠ leaf)
  let after := (leaves.dropWhile (· ≠ leaf)).drop 1
  match t.visitAll before with
  | .ok _ => t.steps after
  | .error link => [.error link]

end Tree

namespace Operator

/-- Where `op` leads from the node `n`, which has the number `id`. Only links that are walked over
are checked; a link that is followed once is handed on as it is. -/
def reach (t : Tree) (id : NodeId) (n : Node) : Operator → Reach
  | child => .some (n.children.map .ok)
  | descendant => if n.isLeaf then .decided false else .some (t.steps ((t.preorder id).drop 1))
  | firstChild => .some (n.children.head?.toList.map .ok)
  | secondChild => .some (n.children[1]?.toList.map .ok)
  | nthChild k => .some (if k = 0 then [] else n.children[k.toNat - 1]?.toList.map .ok)
  | everyChild => if n.isLeaf then .decided false else .every n.children
  | parent => .some (n.parent.toList.map .ok)
  | ancestor => .some ((t.ancestors id).map .ok)
  | nextLeaf => if n.isLeaf then .some ((t.laterLeaves id).take 1) else .decided false
  | laterLeaf => if n.isLeaf then .some (t.laterLeaves id) else .decided false
  | sibling =>
    match n.parent with
    | none => .decided false
    | some p =>
      match t.get p with
      | .ok above => .some ((above.children.filter (· ≠ id)).map .ok)
      | .error link => .some [.error link]
  | nextSibling => .unsupported
  | laterSibling => .unsupported
  | self => .some [.ok id]
  | head => .some (n.head?.toList.map .ok)
  | headChain => .some (t.steps (t.headChain id))
  | childCount k => .decided (n.children.length == k.toNat)
  | headIndex k => .decided (!n.isLeaf && n.headIndex == some k)

/-- Whether the node `id` stands in the relation to a node that satisfies `operand`. -/
def test (op : Operator) (t : Tree) (id : NodeId) (operand : NodeId → Test) : Test :=
  match t.get id with
  | .error link => .fail (.broken link)
  | .ok n =>
    match op.reach t id n with
    | .some steps =>
      .any (steps.map fun
        | .ok m => operand m
        | .error link => .fail (.broken link))
    | .every ids => .all (ids.map operand)
    | .decided holds => .answer holds
    | .unsupported => .fail (.unsupported op)

end Operator

end TreeQuery
