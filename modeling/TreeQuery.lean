import TreeQuery.Pattern.Printer
import TreeQuery.Proofs.Pattern.Operators
import TreeQuery.Proofs.Pattern.Parts
import TreeQuery.Proofs.Pattern.Tests
import TreeQuery.Tree.Edit
import TreeQuery.Treebank
import TreeQuery.Proofs.Pattern.Meaning
import TreeQuery.Proofs.Pattern.Writes
import TreeQuery.Proofs.Pattern.Scopes
import TreeQuery.Proofs.Pattern.Witnesses
import TreeQuery.Proofs.Query.Tokens
import TreeQuery.Proofs.Query.Phrases
import TreeQuery.Proofs.Pattern.Symbols
import TreeQuery.Proofs.Query.RoundTrip
import TreeQuery.Proofs.Bracket.Spelling
import TreeQuery.Proofs.Bracket.Tokens
import TreeQuery.Proofs.Bracket.Grammar
import TreeQuery.Proofs.Bracket.Arena
import TreeQuery.Proofs.Pattern.Containment
import TreeQuery.Proofs.Pattern.Interference
import TreeQuery.Proofs.Tree.Copies
import TreeQuery.Proofs.Pattern.Copies
import TreeQuery.Proofs.Search.Copies
import TreeQuery.Proofs.Bracket.Numbering
import TreeQuery.Proofs.Calls
import TreeQuery.Proofs.Search.Matches
import TreeQuery.Proofs.Bracket.LineEnds
import TreeQuery.Proofs.Stream.Chunks
import TreeQuery.Proofs.Stream.Division
import TreeQuery.Proofs.Stream.Scan
import TreeQuery.Proofs.Stream.Results
import TreeQuery.Proofs.Bracket.Canonical
import TreeQuery.Proofs.Stream.Trees
import TreeQuery.Proofs.Tree.Relinking
import TreeQuery.Proofs.Tree.Stepwise
import TreeQuery.Proofs.Tree.Forests
import TreeQuery.Proofs.Bracket.Printing
import TreeQuery.Proofs.Bracket.Margins
import TreeQuery.Proofs.Stream.Levels
import TreeQuery.Proofs.Stream.Single
import TreeQuery.Proofs.Category.Spelling
import TreeQuery.Proofs.Stream.Concatenation
import TreeQuery.Proofs.Treebank
import TreeQuery.Proofs.Pattern.Course
import TreeQuery.Proofs.Search.Confinement
import TreeQuery.Proofs.Pattern.Equivalence
import TreeQuery.Proofs.Pattern.Synonyms
import TreeQuery.Proofs.Pattern.Rewriting
import TreeQuery.Proofs.Pattern.Precedence
import TreeQuery.Proofs.Category.Printing
import TreeQuery.Proofs.Query.CategoryAnchors
import TreeQuery.Proofs.Tree.Transplant
import TreeQuery.Proofs.Query.Printed
import TreeQuery.Proofs.Query.Regrouping
import TreeQuery.Proofs.Tree.Bystanders
import TreeQuery.Proofs.Query.Anchors
import TreeQuery.Proofs.Query.Operators
import TreeQuery.Proofs.Regex.Cutting
import TreeQuery.Proofs.Regex.Spans
import TreeQuery.Proofs.Regex.Anchoring
import TreeQuery.Proofs.Tree.UpAndDown
import TreeQuery.Proofs.Pattern.Converse
import TreeQuery.Proofs.Tree.Detachment
import TreeQuery.Proofs.Search.Detachment
import TreeQuery.Proofs.Tree.Heads
import TreeQuery.Proofs.Pattern.Sequence
import TreeQuery.Proofs.Query.Literals
import TreeQuery.Proofs.Bracket.Faults
import TreeQuery.Proofs.Stream.BadLine
import TreeQuery.Proofs.Query.Faults
import TreeQuery.Proofs.Stream.Registers
