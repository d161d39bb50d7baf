import StackTemplate.Text.Natural
import StackTemplate.Text.Blank
import StackTemplate.Text.Split
import StackTemplate.Text.Unseen
import StackTemplate.Text.Quoted
import StackTemplate.Decimal.Shortest
import StackTemplate.Decimal.Layout
import StackTemplate.Decimal.Numeral
import StackTemplate.Digest.Sha256
import StackTemplate.Entries
import StackTemplate.Value.Basic
import StackTemplate.Value.Path
import StackTemplate.Value.Digest
import StackTemplate.Json.Printer
import StackTemplate.Json.Tree
import StackTemplate.Json.Parser
import StackTemplate.Yaml.Cursor
import StackTemplate.Yaml.Scalar
import StackTemplate.Yaml.Tag
import StackTemplate.Yaml.Property
import StackTemplate.Yaml.Token
import StackTemplate.Yaml.Lexer
import StackTemplate.Yaml.Node
import StackTemplate.Yaml.Plain
import StackTemplate.Yaml.Parser
import StackTemplate.Yaml.Printer
import StackTemplate.Settings
import StackTemplate.Template
import StackTemplate.Intrinsic
import StackTemplate.Pseudo
import StackTemplate.Placeholder
import StackTemplate.Scope
import StackTemplate.Mapping
import StackTemplate.Unresolved
import StackTemplate.Parameter
import StackTemplate.Evaluator
import StackTemplate.Expansion.Collection
import StackTemplate.Expansion.Diagnostic
import StackTemplate.Expansion.Expander
import StackTemplate.Expansion.Basic
import StackTemplate.Condition.Expr
import StackTemplate.Condition.Scenario
import StackTemplate.Condition.Formula
import StackTemplate.Condition.Index
import StackTemplate.Condition.Solver
import StackTemplate.Ternary
import StackTemplate.Analysis.Flattening
import StackTemplate.Analysis.PathConditions
import StackTemplate.Analysis.Basic
import StackTemplate.Analysis.Report
import StackTemplate.Command.Arguments
import StackTemplate.Command.Run
import StackTemplate.Main
import StackTemplate.Proofs.Evaluation
import StackTemplate.Proofs.Truth
import StackTemplate.Proofs.Compilation
import StackTemplate.Proofs.Satisfiability
import StackTemplate.Proofs.Identity
import StackTemplate.Proofs.World
import StackTemplate.Proofs.Scenarios
import StackTemplate.Proofs.Memory
import StackTemplate.Proofs.Reachability
import StackTemplate.Proofs.Shapes
import StackTemplate.Proofs.Parts
import StackTemplate.Proofs.Settlement
import StackTemplate.Proofs.LoopVariables
import StackTemplate.Proofs.Coverage
import StackTemplate.Proofs.Unrolling
import StackTemplate.Proofs.Expansion
import StackTemplate.Proofs.Enumeration
import StackTemplate.Proofs.Cycles
import StackTemplate.Proofs.Circumstances
import StackTemplate.Proofs.Invariance
import StackTemplate.Proofs.Staging
import StackTemplate.Proofs.Substitution
import StackTemplate.Proofs.RoundTrip
import StackTemplate.Proofs.Locality
import StackTemplate.Proofs.LoopKeys
import StackTemplate.Proofs.Dangling
import StackTemplate.Proofs.Coherence
import StackTemplate.Proofs.Termination
import StackTemplate.Proofs.Implication
import StackTemplate.Proofs.Gating
import StackTemplate.Proofs.SharedAtoms
import StackTemplate.Proofs.Sites
import StackTemplate.Proofs.OperandOrder
import StackTemplate.Proofs.MacroFree
import StackTemplate.Proofs.Splitting
import StackTemplate.Proofs.Locations
import StackTemplate.Proofs.Scanning
import StackTemplate.Proofs.KeyInference
import StackTemplate.Proofs.Verbatim
import StackTemplate.Proofs.Delimiters
import StackTemplate.Proofs.DottedPaths
import StackTemplate.Proofs.StaticValues
import StackTemplate.Proofs.Replacement
