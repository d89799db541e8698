import TreeQuery.Proofs.Grammar.Spacing
import TreeQuery.Query.Phrase

namespace TreeQuery.Query

open Grammar
open Grammar.Expr (any sign oneOf opt many1 blank blanks loosely manyLoosely)

inductive Rule
  | query
  | node
  | alternative
  | unary
  | negation
  | reluctant
  | constraintGroup
  | group
  | relation
  | operand
  | bareNode
  | operator
  | anchor
  | capture
  | base
  | wildcard
  | regex
  | regexBody
  | unanchored
  | lexAnchor
  | catAnchor
  | sameAs
  | differentFrom
  | quoted
  | quotedBody
  | bare
  | catBare
  | catFeature
  | var

namespace Rule

def structural : Expr Rule :=
  oneOf ['{', '}', '[', ']', '(', ')', '!', '|', '=', '~', '<', '>']

def reserved : Expr Rule :=
  .choice structural (oneOf ['$', '&', '#', '.', '*', '/', '^', '@', '"', '?', '%'])

/-- Text in front of a delimiter, where a backslash goes with the character after it. -/
def body (delimiter : Char) : Expr Rule :=
  .many (.choice (.seq (sign '\\') any) (.seq (.not (sign delimiter)) any))

end Rule

open Rule in
/-- A query is one node: an anchor or a group, followed by constraints. -/
def rules : Rules Rule
  | query => ⟨.tree, .seq blanks (loosely (.rule node) (.not any))⟩
  | node => ⟨.tree, loosely (.choice (.rule group) (.rule anchor))
      (manyLoosely (.rule alternative))⟩
  | alternative => ⟨.tree, loosely (.rule unary) (manyLoosely (loosely (sign '|') (.rule unary)))⟩
  | unary => ⟨.silent, .choice (.rule negation) (.choice (.rule reluctant)
      (.choice (.rule constraintGroup) (.choice (.rule group) (.rule relation))))⟩
  | negation => ⟨.tree, loosely (sign '!') (.rule unary)⟩
  | reluctant => ⟨.tree, loosely (sign '?') (.rule unary)⟩
  | constraintGroup => ⟨.tree, loosely (sign '[')
      (loosely (loosely (.rule alternative) (manyLoosely (.rule alternative))) (sign ']'))⟩
  | group => ⟨.tree, loosely (sign '{')
      (loosely (.rule node) (loosely (sign '}') (opt (.rule capture))))⟩
  | relation => ⟨.tree, loosely (.rule operator) (.rule operand)⟩
  | operand => ⟨.silent, .choice (.rule group) (.rule bareNode)⟩
  | bareNode => ⟨.tree, .rule anchor⟩
  | operator => ⟨.token, many1
      (.choice (.char Char.isDigit) (oneOf ['<', '>', '.', '$', '&', '#', '%']))⟩
  | anchor => ⟨.tree, .seq (.rule base) (opt (.rule capture))⟩
  | capture => ⟨.tree, .seq (sign '=') (.rule var)⟩
  | base => ⟨.silent, .choice (.rule wildcard) (.choice (.rule regex) (.choice (.rule lexAnchor)
      (.choice (.rule catAnchor) (.choice (.rule sameAs) (.choice (.rule differentFrom)
        (.choice (.rule quoted) (.rule bare)))))))⟩
  | wildcard => ⟨.tree, sign '*'⟩
  | regex => ⟨.tree, .seq (sign '/')
      (.seq (.rule regexBody) (.seq (sign '/') (opt (.rule unanchored))))⟩
  | regexBody => ⟨.token, body '/'⟩
  | unanchored => ⟨.tree, sign 'a'⟩
  | lexAnchor => ⟨.tree, .seq (sign '^')
      (.choice (.rule regex) (.choice (.rule quoted) (.rule bare)))⟩
  | catAnchor => ⟨.tree, .seq (sign '@')
      (.choice (.rule regex) (.choice (.rule quoted) (.rule catBare)))⟩
  | sameAs => ⟨.tree, .seq (sign '=') (.rule var)⟩
  | differentFrom => ⟨.tree, .seq (sign '~') (.rule var)⟩
  | quoted => ⟨.tree, .seq (sign '"') (.seq (.rule quotedBody) (sign '"'))⟩
  | quotedBody => ⟨.token, body '"'⟩
  | bare => ⟨.token, .seq (.seq (.not (.choice reserved blank)) any)
      (.many (.seq (.not (.choice structural blank)) any))⟩
  | catBare => ⟨.token, many1 (.choice (.rule catFeature) (.choice (.char Char.isAlphanum)
      (oneOf ['\\', '/', '(', ')', '|', ',', ':', ';', '_', '-', '.'])))⟩
  -- only ever a part of a token, which has no parts
  | catFeature => ⟨.silent, .seq (sign '[')
      (.seq (many1 (.choice (.char Char.isAlphanum) (oneOf ['_', '-']))) (sign ']'))⟩
  | var => ⟨.token, .seq (.choice (.char Char.isAlpha) (sign '_'))
      (.many (.choice (.char Char.isAlphanum) (sign '_')))⟩

abbrev QueryTree := ParseTree Rule

/-- The parse trees of a query; there is none for a text that is no query. -/
def IsParseTree (text : String) (t : QueryTree) : Prop :=
  Parses rules (.rule .query) text.toList (some ([t], []))

namespace QueryTree

def value? : QueryTree → Option Value
  | .node .regex _ (.node .regexBody body [] :: unanchored) =>
    some (.regex (.ofList (Quoted.unescapeSlashes body.toList)) unanchored.isEmpty)
  | .node .quoted _ [.node .quotedBody body []] =>
    some (.text (.ofList (Quoted.unescape body.toList)))
  | .node .bare text [] => some (.text text)
  | .node .catBare text [] => some (.text text)
  | _ => none

def name? : QueryTree → Option String
  | .node .var text [] => some text
  | _ => none

def base? : QueryTree → Option Base
  | .node .wildcard _ [] => some .any
  | .node .lexAnchor _ [v] => (value? v).map .word
  | .node .catAnchor _ [v] => (value? v).map .category
  | .node .sameAs _ [v] => (name? v).map .sameAs
  | .node .differentFrom _ [v] => (name? v).map .differentFrom
  | t => (value? t).map .label

def captured? : QueryTree → Option String
  | .node .capture _ [v] => name? v
  | _ => none

/-- The variable of a capture, if there is one. -/
def capture? : List QueryTree → Option (Option String)
  | [] => some none
  | [c] => (captured? c).map some
  | _ => none

def literal? : QueryTree → Option Literal
  | .node .anchor _ (b :: capture) => do
    let b ← base? b
    let c ← capture? capture
    return ⟨b, c⟩
  | _ => none

/-- One alternative, or the phrase of two or more. -/
def joined? : List Phrase → Option Phrase
  | [] => none
  | p :: ps => some (Arms.toPhrase ⟨p, ps⟩)

mutual

def node? : QueryTree → Option NodePhrase
  | .node .node _ (head :: constraints) => do
    let h ← item? head
    let cs ← constraints? constraints
    return ⟨h, cs⟩
  | _ => none

/-- A node in braces, of the parts of a group. -/
def braced? : List QueryTree → Option Phrase
  | n :: capture => do
    let n ← node? n
    let c ← capture? capture
    return .group n.head n.constraints c
  | [] => none

/-- A head or an operand. -/
def item? : QueryTree → Option Phrase
  | .node .group _ parts => braced? parts
  | .node .bareNode _ [a] => (literal? a).map .anchor
  | .node .anchor text parts => (literal? (.node .anchor text parts)).map .anchor
  | _ => none

def unary? : QueryTree → Option Phrase
  | .node .negation _ [u] => (unary? u).map .not
  | .node .reluctant _ [u] => (unary? u).map .optional
  | .node .constraintGroup _ members => (constraints? members).map .all
  | .node .group _ parts => braced? parts
  | .node .relation _ [.node .operator symbol [], operand] =>
    (item? operand).map (.relation symbol)
  | _ => none

def arms? : List QueryTree → Option (List Phrase)
  | [] => some []
  | u :: us => do
    let p ← unary? u
    let ps ← arms? us
    return p :: ps

def constraint? : QueryTree → Option Phrase
  | .node .alternative _ arms => (arms? arms).bind joined?
  | _ => none

def constraints? : List QueryTree → Option (List Phrase)
  | [] => some []
  | c :: cs => do
    let p ← constraint? c
    let ps ← constraints? cs
    return p :: ps

end

/-- The phrase of a whole query. -/
def query? : QueryTree → Option NodePhrase
  | .node .query _ [n] => node? n
  | _ => none

end QueryTree

end TreeQuery.Query
