import TreeQuery.Text.Blank

namespace TreeQuery.Text

def isStructural (c : Char) : Bool :=
  ['{', '}', '[', ']', '(', ')', '!', '|', '=', '~', '<', '>'].contains c

/-- Characters that begin an operator, another kind of anchor or a constraint. -/
def isIntroducer (c : Char) : Bool :=
  ['$', '&', '#', '.', '*', '/', '^', '@', '"', '?', '%'].contains c

/-- A character that may stand in a bare label. -/
def isBareChar (c : Char) : Bool :=
  !isStructural c && !isBlank c

/-- A character that may begin a bare label. -/
def isBareStart (c : Char) : Bool :=
  isBareChar c && !isIntroducer c

/-- Labels that are printed without quotes; white space of any kind calls for quotes. -/
def isBare : List Char → Bool
  | [] => false
  | c :: cs => !isIntroducer c && (c :: cs).all fun c => !isWhiteSpace c && !isStructural c

end TreeQuery.Text
