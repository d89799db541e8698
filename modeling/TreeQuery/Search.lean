import TreeQuery.Pattern.Satisfaction
import TreeQuery.Query.Reader

namespace TreeQuery

structure Match where
  node : NodeId
  bindings : Bindings
deriving DecidableEq

namespace Search

variable [RegexEngine]

abbrev Result := Except MatchError Match

/-- Tries the candidates in order and stops after the first error but an unbound variable. -/
def collect (p : Pattern) (t : Tree) : List (Except BrokenLink NodeId) → List Result
  | [] => []
  | .error link :: _ => [.error (.broken link)]
  | .ok id :: rest =>
    match p.matchAt t id with
    | .ok (some b) => .ok ⟨id, b⟩ :: collect p t rest
    | .ok none => collect p t rest
    | .error (.unbound _) => collect p t rest
    | .error e => [.error e]

/-- The whole subtree of `start` in pre-order, or `start` alone. -/
def candidates (t : Tree) (start : NodeId) (recursive : Bool) : List (Except BrokenLink NodeId) :=
  if recursive then t.steps (t.preorder start) else [.ok start]

def run (p : Pattern) (t : Tree) (start : NodeId) (recursive : Bool) : List Result :=
  collect p t (candidates t start recursive)

def first (p : Pattern) (t : Tree) (start : NodeId) (recursive : Bool) : Option Result :=
  (run p t start recursive).head?

/-- The matches below the root; a tree without a root has none. -/
def all (p : Pattern) (t : Tree) : List Result :=
  match t.root with
  | some root => run p t root true
  | none => []

def query (text : String) (t : Tree) : Except Query.QueryError (List Result) :=
  (Pattern.parse text).map (all · t)

/-- The matches before the first error. -/
def matchesBefore : List Result → List Match
  | .ok m :: rest => m :: matchesBefore rest
  | _ => []

/-- A search that gives one result at a time. What is still to be tried are subtrees, the next one
first, or single nodes if the search does not go down. -/
structure Matches where
  pending : List NodeId
  recursive : Bool
  done : Bool

namespace Matches

def start (id : NodeId) (recursive : Bool) : Matches :=
  ⟨[id], recursive, false⟩

/-- The next candidate, and what is still to be tried after it. -/
def candidate? (t : Tree) (m : Matches) : Except BrokenLink (Option (NodeId × List NodeId)) :=
  if m.recursive then t.preorderStep m.pending
  else .ok (m.pending.head?.map (·, m.pending.tail))

/-- Tries a candidate: the search goes on, or the call gives something. An error that it gives is
the last result. -/
def tryAt (p : Pattern) (t : Tree) (id : NodeId) (m : Matches) :
    Matches ⊕ (Option Result × Matches) :=
  match p.matchAt t id with
  | .ok (some b) => .inr (some (.ok ⟨id, b⟩), m)
  | .ok none => .inl m
  | .error (.unbound _) => .inl m
  | .error e => .inr (some (.error e), { m with done := true })

def attempt (p : Pattern) (t : Tree) (m : Matches) : Matches ⊕ (Option Result × Matches) :=
  match m.candidate? t with
  | .error link => .inr (some (.error (.broken link)), { m with done := true })
  | .ok none => .inr (none, { m with done := true })
  | .ok (some (id, pending)) => tryAt p t id { m with pending }

/-- A call that comes to no end, in a tree with cycles, still denotes something. -/
instance : Nonempty (Option Result × Matches) :=
  ⟨none, start 0 false⟩

/-- Tries candidates until one of them gives a result. -/
def next (p : Pattern) (t : Tree) (m : Matches) : Option Result × Matches :=
  if m.done then (none, m) else Id.run (repeatM (fun m => pure (m.attempt p t)) m)

end Matches

end Search

end TreeQuery
