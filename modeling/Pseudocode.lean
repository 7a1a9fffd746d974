import Pseudocode.Text.Blank
import Pseudocode.Text.Quoted
import Pseudocode.Double.Text
import Pseudocode.Text.Lines
import Pseudocode.Token.Scan
import Pseudocode.Program.Outline
import Pseudocode.Program.Parser.Statement
import Pseudocode.Assembly.Module
import Pseudocode.Scope
import Pseudocode.Diagnostic
import Pseudocode.Event
import Pseudocode.Compile
import Pseudocode.CommandLine.FileTree
import Pseudocode.Main
import Pseudocode.Proofs.Typing.Check
import Pseudocode.Proofs.Lowering.Draft
import Pseudocode.Proofs.Lowering.Emission
import Pseudocode.Proofs.Lowering.Checking
import Pseudocode.Proofs.Lowering.Building
import Pseudocode.Proofs.Lowering.Region
import Pseudocode.Proofs.Lowering.Acceptance
import Pseudocode.Proofs.Lowering.ControlFlow
import Pseudocode.Proofs.Lowering.Discipline
import Pseudocode.Proofs.Lowering.Chains
import Pseudocode.Proofs.Execution.Datum
import Pseudocode.Proofs.Execution.Machine
import Pseudocode.Proofs.Execution.Source
import Pseudocode.Proofs.Execution.Branches
import Pseudocode.Proofs.Execution.Expressions
import Pseudocode.Proofs.Execution.Preservation
import Pseudocode.Proofs.Parsing.Expressions
import Pseudocode.Proofs.Parsing.Programs
import Pseudocode.Proofs.Assembly.Rules
import Pseudocode.Proofs.Lowering.Instructions
import Pseudocode.Proofs.Scanning.Tokens
import Pseudocode.Proofs.Parsing.Failure
import Pseudocode.Proofs.Inertness.Reading
import Pseudocode.Proofs.Globals.Names
import Pseudocode.Proofs.Places.Diagnostics
import Pseudocode.Proofs.Printing.Compiled
import Pseudocode.Proofs.Scanning.Spelling
import Pseudocode.Proofs.Scopes.Tree
import Pseudocode.Proofs.Renaming.Hygiene
import Pseudocode.Proofs.LineEndings.Compiling
import Pseudocode.Proofs.Execution.Comparisons
import Pseudocode.Proofs.Scanning.Joining
import Pseudocode.Proofs.Evolution.Locality
import Pseudocode.Proofs.Evolution.Trace
import Pseudocode.Proofs.Places.Counting
import Pseudocode.Proofs.Printing.Constants
import Pseudocode.Proofs.Evolution.Storage
import Pseudocode.Proofs.Parsing.Progress
import Pseudocode.Proofs.Scopes.Closing
import Pseudocode.Proofs.Assembly.Blocks
import Pseudocode.Proofs.Assembly.Symbols
import Pseudocode.Proofs.Execution.Equality
