import CommittedRegex.Definition.Printer
import CommittedRegex.Expr.Handle
import CommittedRegex.Expr.Measure
import CommittedRegex.Inspect
import CommittedRegex.Main
import CommittedRegex.Matcher
import CommittedRegex.Proofs.Machine.Walk
import CommittedRegex.Proofs.Machine.Faithful
import CommittedRegex.Proofs.Expr.Language
import CommittedRegex.Proofs.Matching
import CommittedRegex.Proofs.Store.History
import CommittedRegex.Proofs.Store.Layout
import CommittedRegex.Proofs.Machine.Frames
import CommittedRegex.Proofs.Machine.Limit
import CommittedRegex.Proofs.Expr.Printing
import CommittedRegex.Proofs.Text.Spelling
import CommittedRegex.Proofs.Expr.Reading
import CommittedRegex.Proofs.Definition.Builder
import CommittedRegex.Proofs.Definition.Meaning
import CommittedRegex.Proofs.CommandLine.Session
import CommittedRegex.Proofs.CommandLine.Arguments
import CommittedRegex.Proofs.CommandLine.Settings
import CommittedRegex.Proofs.Machine.Places
import CommittedRegex.Proofs.Machine.Relocation
import CommittedRegex.Proofs.Characters
import CommittedRegex.Proofs.Concatenation
import CommittedRegex.Proofs.Expr.Counts
import CommittedRegex.Proofs.Machine.Budget
import CommittedRegex.Proofs.Machine.Consuming
import CommittedRegex.Proofs.Machine.Counters
import CommittedRegex.Proofs.Machine.Nesting
import CommittedRegex.Proofs.Expr.Algebra
import CommittedRegex.Proofs.Definition.Stacks
import CommittedRegex.Proofs.Text.Lines
import CommittedRegex.Proofs.CommandLine.Reports
import CommittedRegex.Proofs.CommandLine.Inputs
import CommittedRegex.Proofs.Expr.Measures
import CommittedRegex.Proofs.Expr.Parentheses
import CommittedRegex.Proofs.CommandLine.Grammar
import CommittedRegex.Proofs.PatternFile.RoundTrip
