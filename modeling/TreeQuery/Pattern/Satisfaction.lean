import TreeQuery.Pattern.Basic
import TreeQuery.Pattern.Relation

namespace TreeQuery

variable [RegexEngine]

namespace Anchor

/-- Whether the node agrees with the one that `var` is bound to. -/
def sameAsTest (t : Tree) (n : Node) (var : String) : Test := fun s =>
  match s.lookup? var with
  | none => ⟨.error (.unbound var), s⟩
  | some id =>
    match t.get id with
    | .ok bound => ⟨.ok (bound.agrees n.toMark), s⟩
    | .error link => ⟨.error (.broken link), s⟩

def testNode (t : Tree) (n : Node) (id : NodeId) : Anchor → Test
  | any => .yes
  | label text => .answer (n.label == text)
  | labelMatching re => .answer (re.isMatch n.label)
  | word text => .answer (n.leafWord? == some text)
  | wordMatching re => .answer (n.leafWord?.any re.isMatch)
  | category text => .answer ((n.category.map Category.toText) == some text)
  | categoryMatching re => .answer (n.category.any fun c => re.isMatch c.toText)
  | sameAs var => sameAsTest t n var
  | differentFrom var => .not (sameAsTest t n var)
  | capture anchor var => .capture (anchor.testNode t n id) var id

def test (a : Anchor) (t : Tree) (id : NodeId) : Test :=
  match t.get id with
  | .ok n => a.testNode t n id
  | .error link => .fail (.broken link)

end Anchor

namespace Pattern

mutual

def test (t : Tree) : Pattern → NodeId → Test
  | node a cs, id => .both (a.test t id) (testAll t cs id)
  | related op p, id => op.test t id (p.test t)
  | not p, id => .not (p.test t id)
  | or p q, id => .either (p.test t id) (q.test t id)
  | group p, id => p.test t id
  | all cs, id => testAll t cs id
  | optional p, id => .optional (p.test t id)
  | capture p var, id => .capture (p.test t id) var id

def testAll (t : Tree) : List Pattern → NodeId → Test
  | [], _ => .yes
  | c :: cs, id => .both (c.test t id) (testAll t cs id)

end

/-- The bindings of a match at `id`, if the pattern holds there. -/
def matchAt (p : Pattern) (t : Tree) (id : NodeId) : Except MatchError (Option Bindings) :=
  match p.test t id .empty with
  | ⟨.ok true, s⟩ => .ok (some s)
  | ⟨.ok false, _⟩ => .ok none
  | ⟨.error e, _⟩ => .error e

end Pattern

end TreeQuery
