import TreeQuery.Tree.Basic

namespace TreeQuery

structure Bindings where
  entries : List (String × NodeId)
  nodup : (entries.map Prod.fst).Nodup
deriving DecidableEq

namespace Bindings

def empty : Bindings := ⟨[], List.nodup_nil⟩

def lookup? (b : Bindings) (var : String) : Option NodeId :=
  b.entries.lookup var

def contains (b : Bindings) (var : String) : Bool :=
  (b.lookup? var).isSome

def bind (b : Bindings) (var : String) (id : NodeId) : Bindings where
  entries := (var, id) :: b.entries.filter (·.1 ≠ var)
  nodup := by
    rw [List.map_cons, List.nodup_cons]
    constructor
    · intro h
      obtain ⟨e, he, hv⟩ := List.mem_map.mp h
      have := (List.mem_filter.mp he).2
      exact (of_decide_eq_true this) hv
    · exact b.nodup.sublist (List.filter_sublist.map Prod.fst)

def size (b : Bindings) : Nat :=
  b.entries.length

/-- The bound variables in the order of their code points. -/
def names (b : Bindings) : List String :=
  (b.entries.map Prod.fst).mergeSort fun x y => decide (x ≤ y)

def ofList (es : List (String × NodeId)) : Bindings :=
  es.foldl (fun b (var, id) => b.bind var id) empty

end Bindings

end TreeQuery
