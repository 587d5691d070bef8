import SelectSyntax.Session
import SelectSyntax.SyntaxTree.Build
import SelectSyntax.Proofs.Alike
import SelectSyntax.Proofs.Rules
import SelectSyntax.Proofs.Progress
import SelectSyntax.Proofs.Overlap
import SelectSyntax.Proofs.DepthLimit
import SelectSyntax.Proofs.Recursion
import SelectSyntax.Proofs.Expectation
import SelectSyntax.Proofs.NodeDepth
import SelectSyntax.Proofs.Grammar
import SelectSyntax.Proofs.Derivation
import SelectSyntax.Proofs.Reading
import SelectSyntax.Proofs.Soundness
import SelectSyntax.Proofs.Completeness
import SelectSyntax.Proofs.Recognition
import SelectSyntax.Proofs.Lexing
import SelectSyntax.Proofs.Partition
import SelectSyntax.Proofs.Spelling
import SelectSyntax.Proofs.Writing
import SelectSyntax.Proofs.Ambiguity
import SelectSyntax.Proofs.Phrases
import SelectSyntax.Proofs.Leaves
import SelectSyntax.Proofs.Shape
import SelectSyntax.Proofs.Denotation
import SelectSyntax.Proofs.Rendering
import SelectSyntax.Proofs.RoundTrip
import SelectSyntax.Proofs.QueryFree
import SelectSyntax.Proofs.Lexemes
import SelectSyntax.Proofs.Lines
import SelectSyntax.Proofs.WholeTexts
import SelectSyntax.Proofs.Parentheses
import SelectSyntax.Proofs.Locality
import SelectSyntax.Proofs.Language
import SelectSyntax.Proofs.Transcription
import SelectSyntax.Proofs.Viability
import SelectSyntax.Proofs.Continuation
import SelectSyntax.Proofs.Diagnosis
import SelectSyntax.Proofs.Numbering
import SelectSyntax.Proofs.Tracking
import SelectSyntax.Proofs.Resuming
import SelectSyntax.Proofs.Layout
import SelectSyntax.Proofs.Sequence
import SelectSyntax.Proofs.Invariants
import SelectSyntax.Proofs.Batches
import SelectSyntax.Proofs.Location
import SelectSyntax.Proofs.Respacing
import SelectSyntax.Proofs.Quoting
import SelectSyntax.Proofs.Boundaries
import SelectSyntax.Proofs.Family
import SelectSyntax.Proofs.Counting
import SelectSyntax.Proofs.Numerals
import SelectSyntax.Proofs.Calls
import SelectSyntax.Proofs.Consumption
import SelectSyntax.Proofs.Termination
