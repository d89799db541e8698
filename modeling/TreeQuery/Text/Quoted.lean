import TreeQuery.Unicode.Tables

namespace TreeQuery.Quoted

open Unicode

variable [Tables]

/-- A code point between braces, in hexadecimal. -/
def codePoint (c : Char) : List Char :=
  ['\\', 'u', '{'] ++ Nat.toDigits 16 c.toNat ++ ['}']

/-- How `c` is written between two `delimiter`s. -/
def escape (delimiter c : Char) : List Char :=
  if c = delimiter || c = '\\' then ['\\', c]
  else if c = '\t' then ['\\', 't']
  else if c = '\n' then ['\\', 'n']
  else if c = '\r' then ['\\', 'r']
  else if c = '\x00' then ['\\', '0']
  else if isGraphemeExtend c || !isPrintable c then codePoint c
  else [c]

/-- A text in quotes. -/
def encode (cs : List Char) : List Char :=
  '"' :: cs.flatMap (escape '"') ++ ['"']

def write (s : String) : String :=
  String.ofList (encode s.toList)

def writeChar (c : Char) : String :=
  String.ofList ('\'' :: escape '\'' c ++ ['\''])

/-- The text up to the closing delimiter, its escapes kept, and what follows the delimiter. -/
def body? (delimiter : Char) : List Char → Option (List Char × List Char)
  | [] => none
  | '\\' :: c :: cs => (body? delimiter cs).map fun (text, rest) => ('\\' :: c :: text, rest)
  | c :: cs =>
    if c = delimiter then some ([], cs)
    else (body? delimiter cs).map fun (text, rest) => (c :: text, rest)

/-- Only an escaped quote and an escaped backslash lose their backslash. -/
def unescape : List Char → List Char
  | '\\' :: '"' :: cs => '"' :: unescape cs
  | '\\' :: '\\' :: cs => '\\' :: unescape cs
  | c :: cs => c :: unescape cs
  | [] => []

/-- Every backslash directly before a slash is dropped. -/
def unescapeSlashes : List Char → List Char
  | '\\' :: '/' :: cs => '/' :: unescapeSlashes cs
  | c :: cs => c :: unescapeSlashes cs
  | [] => []

end TreeQuery.Quoted
