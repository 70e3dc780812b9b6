import ThreeAddress.Analysis
import ThreeAddress.Main
import ThreeAddress.Proofs.Grammar.RoundTrip
import ThreeAddress.Proofs.Check.Judgement
import ThreeAddress.Proofs.Check.Soundness
import ThreeAddress.Proofs.Check.Leaves
import ThreeAddress.Proofs.Code.Judgement
import ThreeAddress.Proofs.Code.Lowering
import ThreeAddress.Proofs.Meaning.Source
import ThreeAddress.Proofs.Meaning.Machine
import ThreeAddress.Proofs.Meaning.Expressions
import ThreeAddress.Proofs.Meaning.Statements
import ThreeAddress.Proofs.Meaning.Preservation
import ThreeAddress.Proofs.Code.Reading
import ThreeAddress.Proofs.Code.Lines
import ThreeAddress.Proofs.Code.Texts
import ThreeAddress.Proofs.CUnit.Emission
import ThreeAddress.Proofs.Compilation
import ThreeAddress.Proofs.Compilation.Stages
import ThreeAddress.Proofs.Code.Origins
import ThreeAddress.Proofs.Text.Breaks
import ThreeAddress.Proofs.Compilation.Lines
import ThreeAddress.Proofs.Code.Typing
import ThreeAddress.Proofs.Code.Operands
import ThreeAddress.Proofs.Code.Order
import ThreeAddress.Proofs.Code.Layout
import ThreeAddress.Proofs.Code.Arrangement
import ThreeAddress.Proofs.Meaning.Flow
import ThreeAddress.Proofs.Meaning.ControlFlow
import ThreeAddress.Proofs.Compilation.Types
import ThreeAddress.Proofs.Compilation.Names
import ThreeAddress.Proofs.CUnit.Machine
import ThreeAddress.Proofs.CUnit.Preservation
import ThreeAddress.Proofs.Check.Typing
import ThreeAddress.Proofs.Check.Agreement
import ThreeAddress.Proofs.Check.Order
import ThreeAddress.Proofs.Check.Acceptance
import ThreeAddress.Proofs.Check.Characterization
import ThreeAddress.Proofs.Grammar.Kinds
import ThreeAddress.Proofs.Grammar.Viability
import ThreeAddress.Proofs.Grammar.ErrorPosition
import ThreeAddress.Proofs.Code.Assignment
import ThreeAddress.Proofs.Meaning.Initialization
import ThreeAddress.Proofs.Compilation.Initialization
import ThreeAddress.Proofs.Token.Detachment
import ThreeAddress.Proofs.Compilation.Concurrency
import ThreeAddress.Proofs.Check.Renaming
import ThreeAddress.Proofs.Code.Levels
import ThreeAddress.Proofs.Code.Renaming
import ThreeAddress.Proofs.Code.Stability
import ThreeAddress.Proofs.Code.Operators
import ThreeAddress.Proofs.Compilation.Tokens
import ThreeAddress.Proofs.Compilation.Renaming
import ThreeAddress.Proofs.Token.Recognition
import ThreeAddress.Proofs.Check.Drawing
import ThreeAddress.Proofs.Code.Relining
import ThreeAddress.Proofs.Compilation.Layout
import ThreeAddress.Proofs.CUnit.Identifiers
import ThreeAddress.Proofs.Compilation.Identifiers
import ThreeAddress.Proofs.CUnit.Integers
import ThreeAddress.Proofs.CUnit.Operands
import ThreeAddress.Proofs.CUnit.Runs
import ThreeAddress.Proofs.CUnit.Strings
import ThreeAddress.Proofs.Compilation.Literals
import ThreeAddress.Proofs.Analysis
import ThreeAddress.Proofs.Token.LongestMatch
import ThreeAddress.Proofs.Token.Partition
import ThreeAddress.Proofs.Token.Separation
import ThreeAddress.Proofs.Token.Numbering
import ThreeAddress.Proofs.Check.Determinism
import ThreeAddress.Proofs.Check.Parentheses
import ThreeAddress.Proofs.Compilation.Parentheses
import ThreeAddress.Proofs.Invariants
import ThreeAddress.Proofs.Code.Invariants
import ThreeAddress.Proofs.Code.History
import ThreeAddress.Proofs.Check.Invariants
import ThreeAddress.Proofs.Table.Calls
import ThreeAddress.Proofs.Check.Steps
import ThreeAddress.Proofs.Code.Sizes
import ThreeAddress.Proofs.Code.Books
import ThreeAddress.Proofs.Compilation.Sizes
import ThreeAddress.Proofs.Code.Mirror
import ThreeAddress.Proofs.Code.Allocation
import ThreeAddress.Proofs.Typed.Numbering
import ThreeAddress.Proofs.Typed.Drawing
import ThreeAddress.Proofs.Command.Files
import ThreeAddress.Proofs.Command.Outputs
import ThreeAddress.Proofs.Command.Ends
import ThreeAddress.Proofs.Command.Agreement
