import TreeProjection.Main
import TreeProjection.Script
import TreeProjection.Value.Inspection
import TreeProjection.Proofs.Addresses
import TreeProjection.Proofs.SelectorGrammar
import TreeProjection.Proofs.SelectorRoundTrip
import TreeProjection.Proofs.Failures
import TreeProjection.Proofs.Noninterference
import TreeProjection.Proofs.Termination
import TreeProjection.Proofs.Execution
import TreeProjection.Proofs.EvaluationOrder
import TreeProjection.Proofs.FilterHistory
import TreeProjection.Proofs.UnmatchedBrackets
import TreeProjection.Proofs.DocumentShape
import TreeProjection.Proofs.TokenText
import TreeProjection.Proofs.DocumentText
import TreeProjection.Proofs.Stability
import TreeProjection.Proofs.Keeping
import TreeProjection.Proofs.CleanResults
import TreeProjection.Proofs.Replacement
import TreeProjection.Proofs.Wrapping
import TreeProjection.Proofs.Narrowing
import TreeProjection.Proofs.Reordering
import TreeProjection.Proofs.DocumentWalk
import TreeProjection.Proofs.DepthBound
import TreeProjection.Proofs.WildcardPlace
import TreeProjection.Proofs.Numbers
import TreeProjection.Proofs.Agreement
import TreeProjection.Proofs.WrittenText
import TreeProjection.Proofs.OutlineLines
import TreeProjection.Proofs.OutlineReading
import TreeProjection.Proofs.ShortestDecimal
import TreeProjection.Proofs.DecimalText
import TreeProjection.Proofs.Layout
import TreeProjection.Proofs.Output
