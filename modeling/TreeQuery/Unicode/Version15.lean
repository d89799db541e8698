import TreeQuery.Unicode.CaseFolding
import TreeQuery.Unicode.GeneralCategory
import TreeQuery.Unicode.Script
import TreeQuery.Unicode.Tables

namespace TreeQuery.Unicode.Version15

open GeneralCategory

def isAlphabetic (c : Char) : Bool :=
  letters.any (·.contains c) || letterNumber.contains c || covered Stretches.otherAlphabetic c

/-- Word characters are alphabetic, marks, decimal digits, connectors and the two joiners. -/
def isWord (c : Char) : Bool :=
  isAlphabetic c || marks.any (·.contains c) || decimalNumber.contains c ||
    connectorPunctuation.contains c || c = '\u200c' || c = '\u200d'

/-- The properties with a table. -/
inductive Listed
  | any
  | ascii
  | alphabetic
  | lowercase
  | uppercase
  | whiteSpace
  | general (categories : List GeneralCategory)
  | script (script : Script)

namespace Listed

def holds : Listed → Char → Bool
  | any, _ => true
  | ascii, c => isAscii c
  | alphabetic, c => if isAscii c then c.isAlpha else isAlphabetic c
  | lowercase, c => lowercaseLetter.contains c || covered Stretches.otherLowercase c
  | uppercase, c => uppercaseLetter.contains c || covered Stretches.otherUppercase c
  | whiteSpace, c => Text.isWhiteSpace c
  | general gs, c => gs.any (·.contains c)
  | script s, c => covered s.stretches c

def binaryNames : List (String × Listed) :=
  [("alphabetic", alphabetic), ("alpha", alphabetic), ("lowercase", lowercase),
   ("lower", lowercase), ("uppercase", uppercase), ("upper", uppercase),
   ("whitespace", whiteSpace), ("wspace", whiteSpace), ("space", whiteSpace)]

def general? (name : String) : Option Listed :=
  if name = "any" then some any
  else if name = "ascii" then some ascii
  else (GeneralCategory.names.lookup name).map general

def script? (name : String) : Option Listed :=
  (Script.names.lookup name).map script

/-- A name alone is that of a yes-or-no property, a general category or a script, in this order; a
value is one of the general category or of the script. -/
def ofProperty? : Property → Option Listed
  | .named name => (binaryNames.lookup name <|> general? name) <|> script? name
  | .valued property value =>
    match property with
    | "generalcategory" | "gc" => general? value
    | "script" | "sc" => script? value
    | _ => none
  | _ => none

end Listed

/-- The tables of version 15.0, with the scripts and the other properties listed. -/
instance tables : Tables where
  joins c :=
    nonspacingMark.contains c || enclosingMark.contains c || covered Stretches.otherGraphemeExtend c
  prints c := !(others ++ separators).any (·.contains c)
  alphabetic := isAlphabetic
  numeric c := numbers.any (·.contains c)
  known p := (Listed.ofProperty? p).isSome
  holds
    | .decimal, c => decimalNumber.contains c
    | .word, c => isWord c
    | p, c => (Listed.ofProperty? p).any (·.holds c)
  caseVariants := caseVariants

end TreeQuery.Unicode.Version15
