import TreeQuery.Text.Line
import TreeQuery.Bracket.Reader

namespace TreeQuery

namespace Stream

/-- The text of a tree that is not closed yet, latest character first. -/
structure OpenChunk where
  line : Nat
  depth : Nat
  inHeader : Bool
  text : List Char

inductive Item
  | chunk (line : Nat) (text : List Char)
  | stray (line : Nat) (c : Char)

namespace OpenChunk

/-- A header begins where an angle bracket follows an opening bracket directly. -/
def start (line : Nat) (next : Option Char) : OpenChunk :=
  ⟨line, 1, next == some '<', ['(']⟩

/-- The chunk after one more character, and whether that closes it. -/
def add (k : OpenChunk) (c : Char) (next : Option Char) : OpenChunk :=
  let k := { k with text := c :: k.text }
  if k.inHeader then { k with inHeader := c != '>' }
  else if c = '(' then { k with depth := k.depth + 1, inHeader := next == some '<' }
  else if c = ')' then { k with depth := k.depth - 1 }
  else k

def isClosed (k : OpenChunk) : Bool :=
  k.depth == 0

end OpenChunk

/-- The items that end in a line, and the chunk that is open after it. `stray` tells whether stray
text has been reported since the last tree of this line. -/
def scanLine (line : Nat) (stray : Bool) :
    Option OpenChunk → List Char → List Item × Option OpenChunk
  | chunk, [] => ([], chunk.map fun k => { k with text := '\n' :: k.text })
  | none, c :: cs =>
    if c = '(' then scanLine line false (some (.start line cs.head?)) cs
    else if Text.isWhiteSpace c || stray then scanLine line stray none cs
    else
      let (items, chunk) := scanLine line true none cs
      (.stray line c :: items, chunk)
  | some k, c :: cs =>
    let k := k.add c cs.head?
    if k.isClosed then
      let (items, chunk) := scanLine line false none cs
      (.chunk k.line k.text.reverse :: items, chunk)
    else scanLine line false (some k) cs

/-- Lines that hold nothing or an identifier separate trees. -/
def isSeparator (line : List Char) : Bool :=
  let text := line.dropWhile Text.isWhiteSpace
  text.isEmpty || ['I', 'D', '='].isPrefixOf text

def Item.read : Item → Except ReadError Tree
  | chunk line text => Tree.parseAt line text
  | stray line c => .error (.inLine line (.stray c))

/-- Reads lines from number `line` on; a line that is no text ends the stream. -/
def scan (line : Nat) : Option OpenChunk → List (Option (List Char)) → List (Except ReadError Tree)
  | none, [] => []
  | some k, [] => [.error (.inLine k.line .unbalanced)]
  | _, none :: _ => [.error .notText]
  | chunk, some text :: lines =>
    if chunk.isNone && isSeparator text then scan (line + 1) none lines
    else
      let (items, chunk) := scanLine line false chunk text
      items.map Item.read ++ scan (line + 1) chunk lines

/-- The trees of a text, and an error where there is something else. -/
def ofText (text : String) : List (Except ReadError Tree) :=
  scan 1 none ((Line.ofText text.toList).map some)

def ofBytes (bytes : List UInt8) : List (Except ReadError Tree) :=
  scan 1 none (Line.ofBytes bytes)

/-- A stream that gives one tree, or one error, at a time. -/
structure Reader where
  lines : List (Option (List Char))
  /-- How many lines have been taken. -/
  taken : Nat
  chunk : Option OpenChunk
  /-- The items that have ended but have not been given yet. -/
  ready : List Item
  done : Bool

namespace Reader

def start (lines : List (Option (List Char))) : Reader :=
  ⟨lines, 0, none, [], false⟩

def ofBytes (bytes : List UInt8) : Reader :=
  start (Line.ofBytes bytes)

/-- Takes lines until an item ends. Nothing is ready before that. -/
def advance (taken : Nat) (chunk : Option OpenChunk) :
    List (Option (List Char)) → Option (Except ReadError Tree) × Reader
  | [] => (chunk.map fun k => .error (.inLine k.line .unbalanced), ⟨[], taken + 1, chunk, [], true⟩)
  | none :: lines => (some (.error .notText), ⟨lines, taken + 1, chunk, [], true⟩)
  | some text :: lines =>
    if chunk.isNone && isSeparator text then advance (taken + 1) none lines
    else
      match scanLine (taken + 1) false chunk text with
      | ([], chunk) => advance (taken + 1) chunk lines
      | (item :: ready, chunk) => (some item.read, ⟨lines, taken + 1, chunk, ready, false⟩)

def next (r : Reader) : Option (Except ReadError Tree) × Reader :=
  match r.ready with
  | item :: ready => (some item.read, { r with ready })
  | [] => if r.done then (none, r) else advance r.taken r.chunk r.lines

end Reader

end Stream

end TreeQuery
