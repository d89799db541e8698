import TreeQuery.Text.Quoted

namespace TreeQuery

namespace Bracket

/-- The rules of the notation: a bracket is a leaf or a phrase, and in a derivation it is a leaf
with a lexical header or a node derived from others. -/
inductive Rule
  | tree
  | bracket
  | lexical
  | derived
  | leaf
  | phrase
  | field
  | index
  | label
  | word
  | endOfText
deriving DecidableEq

def Rule.name : Rule → String
  | tree => "tree"
  | bracket => "bracket"
  | lexical => "ccg_leaf"
  | derived => "ccg_node"
  | leaf => "ptb_leaf"
  | phrase => "ptb_node"
  | field => "field"
  | index => "index"
  | label => "label"
  | word => "word"
  | endOfText => "EOI"

end Bracket

/-- What can be wrong with the text of a tree, or with text between trees. -/
inductive Fault
  | notBracketed
  | notACategory (text : String)
  | headIndex (text : String)
  /-- This one and the next two are told of a parse tree that lacks a part or has a wrong one. -/
  | empty
  | incompleteHeader
  | unexpected (rule : Bracket.Rule)
  | stray (c : Char)
  | unbalanced
deriving DecidableEq

def Fault.message [Unicode.Tables] : Fault → String
  | notBracketed => "Not a bracketed tree"
  | notACategory text => "Invalid category " ++ Quoted.write text
  | headIndex text => "Invalid head index " ++ Quoted.write text
  | empty => "Empty tree"
  | incompleteHeader => "Incomplete <T> header"
  | unexpected rule => "Unexpected " ++ rule.name
  | stray c => "Unexpected " ++ Quoted.writeChar c ++ " between trees"
  | unbalanced => "Unbalanced brackets at end of input"

inductive ReadError
  /-- The tree, or the stray text, begins in this line. -/
  | inLine (line : Nat) (fault : Fault)
  | notText
deriving DecidableEq

def ReadError.message [Unicode.Tables] : ReadError → String
  | inLine line fault => "Parse error at line " ++ toString line ++ ": " ++ fault.message
  | notText => "IO error: stream did not contain valid UTF-8"

end TreeQuery
