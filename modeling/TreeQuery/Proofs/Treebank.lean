import TreeQuery.Proofs.Search.Matches
import TreeQuery.Proofs.Stream.Single
import TreeQuery.Proofs.Stream.Trees
import TreeQuery.Treebank
import TreeQuery.Regex.Engine
import TreeQuery.Unicode.Version15

namespace TreeQuery

namespace Search

variable [RegexEngine] {p : Pattern} {t : Tree}

/-- The match at the node, if the pattern holds there. -/
def found? (p : Pattern) (t : Tree) (id : NodeId) : Option Match :=
  match p.matchAt t id with
  | .ok (some s) => some ⟨id, s⟩
  | _ => none

/-- Whether the search of the tree is given up at the node. -/
def givesUp (p : Pattern) (t : Tree) (id : NodeId) : Bool :=
  match p.matchAt t id with
  | .error (.unsupported _) => true
  | _ => false

theorem Finds.matchesBefore_eq {ids : List NodeId} {rs : List Result} (h : Finds p t ids rs) :
    matchesBefore rs = (ids.takeWhile fun id => !givesUp p t id).filterMap (found? p t) := by
  induction h with
  | done => rfl
  | found he _ ih => simp [matchesBefore, givesUp, found?, he, ih]
  | failed he _ ih | unbound he _ ih => simp [givesUp, found?, he, ih]
  | unsupported he => simp [matchesBefore, givesUp, he]

end Search

namespace Stream

variable {cs : List Char} {ps : List Piece}

def Piece.chunk? : Piece → Option (List Char)
  | chunk text => some text
  | _ => none

/-- The texts of the trees that have an end. -/
def chunks (ps : List Piece) : List (List Char) :=
  ps.filterMap Piece.chunk?

theorem Divided.isChunk {place : Place} (h : Divided place cs ps) :
    ∀ c ∈ chunks ps, IsChunk c := by
  induction h with
  | done | lastSeparator | unclosed => simp [chunks, Piece.chunk?]
  | line _ _ ih => exact ih
  | separator _ _ _ ih | lineFeed _ ih | stretch _ _ _ _ _ ih => exact ih
  | chunk hchunk _ ih => exact List.forall_mem_cons.mpr ⟨hchunk, ih⟩

/-- The line where a tree begins separates nothing. -/
theorem IsChunk.divided (h : IsChunk cs) : Divided .lineStart cs [.chunk cs] := by
  obtain ⟨rest, rfl⟩ := List.head?_eq_some_iff.mp h.1
  have hsep : ¬ Separates (('(' :: rest).takeWhile (· != '\n')) := by
    rw [List.takeWhile_cons_of_pos rfl]
    exact not_separates_open Text.blanks_nil _
  have hchunk : Divided .withinLine (('(' :: rest) ++ []) [.chunk ('(' :: rest)] := .chunk h .done
  rw [List.append_nil] at hchunk
  exact .line hsep hchunk

theorem readable_append (xs ys : List (Except ReadError Tree)) :
    Source.readable (xs ++ ys) = Source.readable xs ++ Source.readable ys :=
  List.filterMap_append

/-- The tree that a chunk is read as, if it can be read. -/
def readChunk (text : List Char) : Option Tree :=
  (Tree.parse (.ofList text)).toOption

theorem Piece.readable_results (line : Nat) (p : Piece) :
    Source.readable (p.results line) = (chunks [p]).filterMap readChunk := by
  cases p with
  | separator | lineFeed => rfl
  | unclosed => rfl
  | stretch text =>
    rw [results, Source.readable, List.filterMap_map]
    exact List.filterMap_eq_nil_iff.mpr fun _ _ => rfl
  | chunk text =>
    have he : ((Tree.parse (.ofList text)).mapError (ReadError.atLine line)).toOption =
        readChunk text := by
      rw [readChunk]
      cases Tree.parse (.ofList text) <;> rfl
    rw [results, Source.readable, List.filterMap_cons, he]
    rfl

/-- What can be read in a text is what can be read in its chunks. -/
theorem readable_results (line : Nat) (ps : List Piece) :
    Source.readable (results line ps) = (chunks ps).filterMap readChunk := by
  induction ps generalizing line with
  | nil => rfl
  | cons p ps ih =>
    have hchunks : chunks (p :: ps) = chunks [p] ++ chunks ps := List.filterMap_append (l := [p])
    rw [results, readable_append, Piece.readable_results, ih, hchunks, List.filterMap_append]

end Stream

namespace Treebank

open TreeQuery.Stream Search

/-- What a tree contributes, whatever stands before and after it. -/
def matchesIn [RegexEngine] (p : Pattern) (t : Tree) : List (Tree × Match) :=
  (matchesBefore (all p t)).map (t, ·)

/-- A tree that was read is searched in pre-order from its root, until the search is given up. -/
theorem matchesIn_eq [RegexEngine] {text : String} {t : Tree} (h : Tree.parse text = .ok t)
    (p : Pattern) : t.root = some 0 ∧ ∃ ids, t.InPreorder 0 ids ∧ matchesIn p t =
      ((ids.takeWhile fun id => !givesUp p t id).filterMap (found? p t)).map (t, ·) := by
  obtain ⟨hwell, hcanonical⟩ := Tree.canonical_of_read (.alone h)
  obtain ⟨ids, ⟨hpre, _⟩, hfinds, _⟩ := finds_and_yields hwell hcanonical.root_lt p true
  refine ⟨hcanonical.root_eq, ids, hpre, ?_⟩
  have hall : all p t = run p t 0 true := by rw [all, hcanonical.root_eq]
  rw [matchesIn, hall, hfinds.matchesBefore_eq]

variable [Gzip]

/-- The matches in all trees, one after the other, each with its tree. -/
def allMatches [RegexEngine] (bank : Treebank) (p : Pattern) : List (Tree × Match) :=
  (bank.matchesByTree p).flatMap fun (t, ms) => ms.map (t, ·)

theorem allMatches_eq [RegexEngine] (bank : Treebank) (p : Pattern) :
    bank.allMatches p = bank.trees.flatMap (matchesIn p) := by
  rw [allMatches, matchesByTree]
  induction bank.trees with
  | nil => rfl
  | cons t ts ih =>
    rw [List.flatMap_cons, ← ih, List.map_cons, matchesIn]
    cases h : matchesBefore (all p t) with
    | nil => rfl
    | cons m ms => rfl

theorem trees_text {text : String} {ps : List Piece} (h : Divided .lineStart text.toList ps) :
    trees [.text text] = (chunks ps).flatMap fun c => (readChunk c).toList := by
  rw [trees, List.flatMap_singleton, Source.trees, ((ofText_divided text).2 ps h).1,
    readable_results, List.filterMap_eq_flatMap_toList]

theorem trees_chunk {c : List Char} (h : IsChunk c) :
    trees [.text (.ofList c)] = (readChunk c).toList := by
  have hd : Divided .lineStart (String.ofList c).toList [.chunk c] := by
    rw [String.toList_ofList]
    exact h.divided
  rw [trees_text hd]
  exact List.flatMap_singleton _ _

/-- The matches in a text are those in its chunks, each searched as if it stood alone. A chunk that
cannot be read has none, the others have those at their nodes in pre-order, up to the first node
where an operator is not supported. -/
theorem allMatches_text [RegexEngine] (text : String) (p : Pattern) :
    (∃ ps, Divided .lineStart text.toList ps) ∧
      ∀ ps, Divided .lineStart text.toList ps →
        allMatches [.text text] p =
          (chunks ps).flatMap (fun c => allMatches [.text (.ofList c)] p) ∧
        ∀ c ∈ chunks ps,
          (∃ e, Tree.parse (.ofList c) = .error e ∧ allMatches [.text (.ofList c)] p = []) ∨
          ∃ t ids, Tree.parse (.ofList c) = .ok t ∧ t.root = some 0 ∧ t.InPreorder 0 ids ∧
            allMatches [.text (.ofList c)] p =
              ((ids.takeWhile fun id => !givesUp p t id).filterMap (found? p t)).map (t, ·) := by
  refine ⟨(exists_divided text.toList).2, fun ps hps => ?_⟩
  have halone : ∀ c ∈ chunks ps, allMatches [.text (.ofList c)] p =
      (readChunk c).toList.flatMap (matchesIn p) := by
    intro c hc
    rw [allMatches_eq, trees_chunk (hps.isChunk c hc)]
  constructor
  · rw [allMatches_eq, trees_text hps, List.flatMap_assoc]
    exact List.flatMap_congr fun c hc => (halone c hc).symm
  · intro c hc
    rw [halone c hc, readChunk]
    cases h : Tree.parse (.ofList c) with
    | error e => exact .inl ⟨e, rfl, rfl⟩
    | ok t =>
      obtain ⟨hroot, ids, hpre, he⟩ := matchesIn_eq h p
      exact .inr ⟨t, ids, rfl, hroot, hpre, (List.flatMap_singleton _ _).trans he⟩

/-- The second of three chunks is no tree. -/
example : (allMatches [.text "(A (B b))\n(C (D))\n(E e)\n"] (.node .any [])).map
    (fun (t, m) => (t.size, m.node)) = [(2, 0), (2, 1), (1, 0)] := by
  cbv

end Treebank

end TreeQuery
