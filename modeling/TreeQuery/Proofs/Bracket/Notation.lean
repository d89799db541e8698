import TreeQuery.Bracket.Basic
import TreeQuery.Proofs.Grammar.Spacing

namespace TreeQuery.Bracket

open Grammar
open Grammar.Expr (any sign opt many1 blank blanks loosely manyLoosely)

namespace Rule

/-- How a header begins. -/
def opening (kind : Char) : Expr Rule :=
  .seq (sign '<') (sign kind)

def wordChar : Expr Rule :=
  .seq (.not (.choice (.choice blank (sign '(')) (sign ')'))) any

/-- One bracket or more, and the end of the one around them. -/
def children : Expr Rule :=
  loosely (loosely (.rule bracket) (manyLoosely (.rule bracket))) (sign ')')

end Rule

open Rule (opening wordChar children) in
/-- A text is one tree. The predicate at the end of a lexical header and the label of a phrase may
be left out. -/
def rules : Rules Rule
  | .tree => ⟨.tree, .seq blanks (loosely (.rule .bracket) (.rule .endOfText))⟩
  | .bracket => ⟨.silent, .choice (.rule .lexical)
      (.choice (.rule .derived) (.choice (.rule .leaf) (.rule .phrase)))⟩
  | .lexical => ⟨.tree, loosely (sign '(') (loosely (opening 'L')
      (loosely (.rule .field) (loosely (.rule .field) (loosely (.rule .field)
        (loosely (.rule .field) (loosely (opt (.rule .field))
          (loosely (sign '>') (sign ')'))))))))⟩
  | .derived => ⟨.tree, loosely (sign '(') (loosely (opening 'T')
      (loosely (.rule .field) (loosely (.rule .index) (loosely (.rule .index)
        (loosely (sign '>') children)))))⟩
  | .leaf => ⟨.tree, loosely (sign '(') (loosely (.rule .label) (loosely (.rule .word) (sign ')')))⟩
  | .phrase => ⟨.tree, loosely (sign '(') (loosely (opt (.rule .label)) children)⟩
  | .field => ⟨.token, many1 (.seq (.not (.choice blank (sign '>'))) any)⟩
  | .index => ⟨.token, many1 (.char Char.isDigit)⟩
  | .label => ⟨.token, .seq (.not (sign '<')) (many1 wordChar)⟩
  | .word => ⟨.token, many1 wordChar⟩
  | .endOfText => ⟨.token, .not any⟩

abbrev BracketTree := ParseTree Rule

/-- The parse trees of a text; there is none for a text that is no bracketed tree. -/
def IsParseTree (cs : List Char) (t : BracketTree) : Prop :=
  Parses rules (.rule .tree) cs (some ([t], []))

namespace BracketTree

/-- The text of a part in its place, or nothing where there is no such part. -/
def textAt (parts : List BracketTree) (i : Nat) : String :=
  (parts[i]?.map ParseTree.text).getD ""

mutual

/-- The tree that a parse tree denotes, with what is told where a part is missing or wrong. -/
def constituent : BracketTree → Except Fault Constituent
  | .node .leaf _ parts =>
    .ok (.node { Mark.bare (textAt parts 0) with word := some (textAt parts 1) } [])
  | .node .lexical _ parts => do
    let c ← category? (textAt parts 0)
    return .node ⟨textAt parts 0, some (textAt parts 3), some (textAt parts 1), some c, none⟩ []
  | .node .phrase _ (.node .label label _ :: children) => do
    let children ← constituents children
    return .node (.bare label) children
  | .node .phrase _ children => do
    let children ← constituents children
    return .node (.bare "") children
  | .node .derived _ (category :: head :: _ :: children) => do
    let h ← headIndex? head.text
    let c ← category? category.text
    let children ← constituents children
    return .node ⟨category.text, none, none, some c, some h⟩ children
  | .node .derived _ _ => .error .incompleteHeader
  | .node rule _ _ => .error (.unexpected rule)

def constituents : List BracketTree → Except Fault (List Constituent)
  | [] => .ok []
  | t :: ts => do
    let c ← constituent t
    let cs ← constituents ts
    return c :: cs

end

/-- The tree of a whole text's parse tree. -/
def toTree : BracketTree → Except Fault Tree
  | .node _ _ (root :: _) => (constituent root).map Constituent.toTree
  | .node _ _ [] => .error .empty

end BracketTree

end TreeQuery.Bracket
