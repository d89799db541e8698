import TreeQuery.Unicode.Stretch

namespace TreeQuery.Unicode

inductive GeneralCategory
  | uppercaseLetter
  | lowercaseLetter
  | titlecaseLetter
  | modifierLetter
  | otherLetter
  | nonspacingMark
  | spacingMark
  | enclosingMark
  | decimalNumber
  | letterNumber
  | otherNumber
  | connectorPunctuation
  | dashPunctuation
  | openPunctuation
  | closePunctuation
  | initialPunctuation
  | finalPunctuation
  | otherPunctuation
  | mathSymbol
  | currencySymbol
  | modifierSymbol
  | otherSymbol
  | spaceSeparator
  | lineSeparator
  | paragraphSeparator
  | control
  | format
  | privateUse
  | unassigned
deriving DecidableEq

namespace GeneralCategory

/-- The code points of an assigned category; what no category lists is unassigned. -/
def stretches : GeneralCategory → List Stretch
  | uppercaseLetter => Stretches.uppercaseLetter
  | lowercaseLetter => Stretches.lowercaseLetter
  | titlecaseLetter => Stretches.titlecaseLetter
  | modifierLetter => Stretches.modifierLetter
  | otherLetter => Stretches.otherLetter
  | nonspacingMark => Stretches.nonspacingMark
  | spacingMark => Stretches.spacingMark
  | enclosingMark => Stretches.enclosingMark
  | decimalNumber => Stretches.decimalNumber
  | letterNumber => Stretches.letterNumber
  | otherNumber => Stretches.otherNumber
  | connectorPunctuation => Stretches.connectorPunctuation
  | dashPunctuation => Stretches.dashPunctuation
  | openPunctuation => Stretches.openPunctuation
  | closePunctuation => Stretches.closePunctuation
  | initialPunctuation => Stretches.initialPunctuation
  | finalPunctuation => Stretches.finalPunctuation
  | otherPunctuation => Stretches.otherPunctuation
  | mathSymbol => Stretches.mathSymbol
  | currencySymbol => Stretches.currencySymbol
  | modifierSymbol => Stretches.modifierSymbol
  | otherSymbol => Stretches.otherSymbol
  | spaceSeparator => Stretches.spaceSeparator
  | lineSeparator => Stretches.lineSeparator
  | paragraphSeparator => Stretches.paragraphSeparator
  | control => Stretches.control
  | format => Stretches.format
  | privateUse => Stretches.privateUse
  | unassigned => []

def letters : List GeneralCategory :=
  [lowercaseLetter, otherLetter, uppercaseLetter, modifierLetter, titlecaseLetter]

def casedLetters : List GeneralCategory :=
  [lowercaseLetter, uppercaseLetter, titlecaseLetter]

def marks : List GeneralCategory :=
  [nonspacingMark, spacingMark, enclosingMark]

def numbers : List GeneralCategory :=
  [decimalNumber, letterNumber, otherNumber]

def punctuation : List GeneralCategory :=
  [connectorPunctuation, dashPunctuation, openPunctuation, closePunctuation, initialPunctuation,
   finalPunctuation, otherPunctuation]

def symbols : List GeneralCategory :=
  [mathSymbol, currencySymbol, modifierSymbol, otherSymbol]

def separators : List GeneralCategory :=
  [spaceSeparator, lineSeparator, paragraphSeparator]

def others : List GeneralCategory :=
  [control, format, privateUse, unassigned]

def assigned : List GeneralCategory :=
  letters ++ marks ++ numbers ++ punctuation ++ symbols ++ separators ++
    [control, format, privateUse]

def contains (g : GeneralCategory) (c : Char) : Bool :=
  match g with
  | unassigned => !assigned.any fun a => covered a.stretches c
  | _ => covered g.stretches c

/-- The names a property test may use, in lower case and without separators. -/
def names : List (String × List GeneralCategory) :=
  [("l", letters), ("letter", letters),
   ("lc", casedLetters), ("casedletter", casedLetters),
   ("lu", [uppercaseLetter]), ("uppercaseletter", [uppercaseLetter]),
   ("ll", [lowercaseLetter]), ("lowercaseletter", [lowercaseLetter]),
   ("lt", [titlecaseLetter]), ("titlecaseletter", [titlecaseLetter]),
   ("lm", [modifierLetter]), ("modifierletter", [modifierLetter]),
   ("lo", [otherLetter]), ("otherletter", [otherLetter]),
   ("m", marks), ("mark", marks), ("combiningmark", marks),
   ("mn", [nonspacingMark]), ("nonspacingmark", [nonspacingMark]),
   ("mc", [spacingMark]), ("spacingmark", [spacingMark]),
   ("me", [enclosingMark]), ("enclosingmark", [enclosingMark]),
   ("n", numbers), ("number", numbers),
   ("nd", [decimalNumber]), ("decimalnumber", [decimalNumber]), ("digit", [decimalNumber]),
   ("nl", [letterNumber]), ("letternumber", [letterNumber]),
   ("no", [otherNumber]), ("othernumber", [otherNumber]),
   ("p", punctuation), ("punctuation", punctuation), ("punct", punctuation),
   ("pc", [connectorPunctuation]), ("connectorpunctuation", [connectorPunctuation]),
   ("pd", [dashPunctuation]), ("dashpunctuation", [dashPunctuation]),
   ("ps", [openPunctuation]), ("openpunctuation", [openPunctuation]),
   ("pe", [closePunctuation]), ("closepunctuation", [closePunctuation]),
   ("pi", [initialPunctuation]), ("initialpunctuation", [initialPunctuation]),
   ("pf", [finalPunctuation]), ("finalpunctuation", [finalPunctuation]),
   ("po", [otherPunctuation]), ("otherpunctuation", [otherPunctuation]),
   ("s", symbols), ("symbol", symbols),
   ("sm", [mathSymbol]), ("mathsymbol", [mathSymbol]),
   ("sc", [currencySymbol]), ("currencysymbol", [currencySymbol]),
   ("sk", [modifierSymbol]), ("modifiersymbol", [modifierSymbol]),
   ("so", [otherSymbol]), ("othersymbol", [otherSymbol]),
   ("z", separators), ("separator", separators),
   ("zs", [spaceSeparator]), ("spaceseparator", [spaceSeparator]),
   ("zl", [lineSeparator]), ("lineseparator", [lineSeparator]),
   ("zp", [paragraphSeparator]), ("paragraphseparator", [paragraphSeparator]),
   ("c", others), ("other", others),
   ("cc", [control]), ("control", [control]), ("cntrl", [control]),
   ("cf", [format]), ("format", [format]),
   ("co", [privateUse]), ("privateuse", [privateUse]),
   ("cn", [unassigned]), ("unassigned", [unassigned]),
   ("assigned", assigned)]

end GeneralCategory

end TreeQuery.Unicode
