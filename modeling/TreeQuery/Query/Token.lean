import TreeQuery.Text.Bare
import TreeQuery.Text.Quoted
import TreeQuery.Category.Reader

namespace TreeQuery.Query

open Text

/-- A text to be compared whole, or the source of an expression to be matched. -/
inductive Value
  | text (s : String)
  | regex (source : String) (anchored : Bool)
deriving DecidableEq

inductive Base
  | any
  | label (v : Value)
  | word (v : Value)
  | category (v : Value)
  | sameAs (var : String)
  | differentFrom (var : String)
deriving DecidableEq

/-- An anchor as it is written. -/
structure Literal where
  base : Base
  capture : Option String
deriving DecidableEq

inductive Token
  | anchor (a : Literal)
  | operator (symbol : String)
  | bar
  | not
  | optional
  | openBracket
  | closeBracket
  | openBrace
  | closeBrace (capture : Option String)
deriving DecidableEq

namespace Token

def isVarStart (c : Char) : Bool :=
  c.isAlpha || c = '_'

def isVarChar (c : Char) : Bool :=
  c.isAlphanum || c = '_'

def isOperatorChar (c : Char) : Bool :=
  c.isDigit || ['<', '>', '.', '$', '&', '#', '%'].contains c

/-- Characters of a category that is written without quotes. -/
def isCategoryChar (c : Char) : Bool :=
  Category.isNameChar c || ['\\', '/', '(', ')', '|'].contains c

def var? : List Char → Option (String × List Char)
  | c :: cs =>
    if isVarStart c then some (String.ofList (c :: cs.takeWhile isVarChar), cs.dropWhile isVarChar)
    else none
  | [] => none

/-- A capture, if one begins here. -/
def capture (cs : List Char) : Option String × List Char :=
  match cs with
  | '=' :: rest =>
    match var? rest with
    | some (var, rest) => (some var, rest)
    | none => (none, cs)
  | _ => (none, cs)

/-- An expression between slashes; a letter `a` directly after it leaves it unanchored. -/
def regex? : List Char → Option (Value × List Char)
  | '/' :: cs =>
    (Quoted.body? '/' cs).map fun (body, rest) =>
      let source := String.ofList (Quoted.unescapeSlashes body)
      match rest with
      | 'a' :: rest => (.regex source false, rest)
      | rest => (.regex source true, rest)
  | _ => none

def quoted? : List Char → Option (Value × List Char)
  | '"' :: cs =>
    (Quoted.body? '"' cs).map fun (body, rest) =>
      (.text (String.ofList (Quoted.unescape body)), rest)
  | _ => none

def bare? : List Char → Option (Value × List Char)
  | c :: cs =>
    if isBareStart c then
      some (.text (String.ofList (c :: cs.takeWhile isBareChar)), cs.dropWhile isBareChar)
    else none
  | [] => none

/-- Whether a feature begins here, after its opening bracket. -/
def isFeature (cs : List Char) : Bool :=
  match cs.takeWhile Category.isFeatureChar, cs.dropWhile Category.isFeatureChar with
  | _ :: _, ']' :: _ => true
  | _, _ => false

/-- A category without quotes and what follows it. Brackets belong to it only as whole features. -/
def bareCategory (inFeature : Bool) : List Char → List Char × List Char
  | [] => ([], [])
  | c :: cs =>
    let more (inFeature : Bool) :=
      let (text, rest) := bareCategory inFeature cs
      (c :: text, rest)
    if inFeature then more (c != ']')
    else if c = '[' && isFeature cs then more true
    else if isCategoryChar c then more false
    else ([], c :: cs)

def category? (cs : List Char) : Option (Value × List Char) :=
  match bareCategory false cs with
  | ([], _) => none
  | (text, rest) => some (.text (String.ofList text), rest)

def base? : List Char → Option (Base × List Char)
  | [] => none
  | '*' :: cs => some (.any, cs)
  | '/' :: cs => (regex? ('/' :: cs)).map fun (v, rest) => (.label v, rest)
  | '^' :: cs =>
    ((regex? cs).or ((quoted? cs).or (bare? cs))).map fun (v, rest) => (.word v, rest)
  | '@' :: cs =>
    ((regex? cs).or ((quoted? cs).or (category? cs))).map fun (v, rest) => (.category v, rest)
  | '=' :: cs => (var? cs).map fun (v, rest) => (.sameAs v, rest)
  | '~' :: cs => (var? cs).map fun (v, rest) => (.differentFrom v, rest)
  | cs => ((quoted? cs).or (bare? cs)).map fun (v, rest) => (.label v, rest)

def anchor? (cs : List Char) : Option (Token × List Char) :=
  (base? cs).map fun (base, rest) =>
    let (var, rest) := capture rest
    (anchor ⟨base, var⟩, rest)

/-- A token where a node is called for. -/
def node? : List Char → Option (Token × List Char)
  | '{' :: cs => some (openBrace, cs)
  | cs => anchor? cs

/-- A token where a constraint is called for. -/
def constraint? : List Char → Option (Token × List Char)
  | [] => none
  | '!' :: cs => some (not, cs)
  | '?' :: cs => some (optional, cs)
  | '|' :: cs => some (bar, cs)
  | '[' :: cs => some (openBracket, cs)
  | ']' :: cs => some (closeBracket, cs)
  | '{' :: cs => some (openBrace, cs)
  | '}' :: cs =>
    match capture (skipBlanks cs) with
    | (some var, rest) => some (closeBrace (some var), rest)
    | (none, _) => some (closeBrace none, cs)
  | c :: cs =>
    if isOperatorChar c then
      let symbol := String.ofList (c :: cs.takeWhile isOperatorChar)
      some (operator symbol, cs.dropWhile isOperatorChar)
    else none

/-- Whether a node is called for after a token. -/
def wantsNode : Token → Bool
  | operator _ => true
  | openBrace => true
  | _ => false

/-- Cuts a query into tokens; `wanting` tells whether a node is called for. -/
def cut? (wanting : Bool) (cs : List Char) : Option (List Token) :=
  match skipBlanks cs with
  | [] => some []
  | visible =>
    (if wanting then node? visible else constraint? visible).bind fun (token, rest) =>
      if rest.length < cs.length then (cut? token.wantsNode rest).map (token :: ·) else none
termination_by cs.length

end Token

end TreeQuery.Query
