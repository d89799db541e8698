import TreeQuery.Tree.Basic

namespace TreeQuery.Tree

/-- The subtree of `id`, at most `depth` nodes deep, in front of `following`. -/
def writeBracketed (t : Tree) : Nat → NodeId → List Char → Except BrokenLink (List Char)
  | 0, id, _ => .error (.noNode id)
  | depth + 1, id, following => do
    let n ← t.get id
    let inside ← n.children.foldrM
      (fun child cs => (t.writeBracketed depth child cs).map (' ' :: ·)) (')' :: following)
    let word := match n.leafWord? with
      | some w => ' ' :: w.toList
      | none => []
    return '(' :: n.label.toList ++ word ++ inside

def bracketed (t : Tree) (id : NodeId) : Except BrokenLink String :=
  (t.writeBracketed (t.size + 1) id []).map String.ofList

end TreeQuery.Tree
