import DoublePushout.Command.Arguments
import DoublePushout.Command.Invocation
import DoublePushout.Command.Run
import DoublePushout.Command.Workspace
import DoublePushout.Fault
import DoublePushout.Format
import DoublePushout.Graph
import DoublePushout.Graph.Construction
import DoublePushout.Graph.Digraph
import DoublePushout.Graph.Index
import DoublePushout.Graph.Isomorphism
import DoublePushout.Graph.Validity
import DoublePushout.Handle
import DoublePushout.IdSet
import DoublePushout.Json.Number
import DoublePushout.Json.Parsed
import DoublePushout.Json.Schema
import DoublePushout.Json.Text
import DoublePushout.Json.Token
import DoublePushout.Json.Value
import DoublePushout.Log
import DoublePushout.Mapping
import DoublePushout.Matching
import DoublePushout.Matching.Session
import DoublePushout.Proofs.Chain
import DoublePushout.Proofs.Command.Actions
import DoublePushout.Proofs.Command.Agreement
import DoublePushout.Proofs.Command.Files
import DoublePushout.Proofs.Command.Lines
import DoublePushout.Proofs.Command.Safety
import DoublePushout.Proofs.Command.Searching
import DoublePushout.Proofs.Embedding
import DoublePushout.Proofs.Format
import DoublePushout.Proofs.Graph.Bundles
import DoublePushout.Proofs.Graph.Fingerprint
import DoublePushout.Proofs.Graph.Growth
import DoublePushout.Proofs.Graph.Ledger
import DoublePushout.Proofs.Graph.Links
import DoublePushout.Proofs.Graph.Listing
import DoublePushout.Proofs.Graph.Narrowing
import DoublePushout.Proofs.Graph.Normalised
import DoublePushout.Proofs.Graph.Placement
import DoublePushout.Proofs.Graph.Validity
import DoublePushout.Proofs.Json.Numerals
import DoublePushout.Proofs.Json.RoundTrip
import DoublePushout.Proofs.Json.Strings
import DoublePushout.Proofs.Json.Tokens
import DoublePushout.Proofs.Matching.Cursor
import DoublePushout.Proofs.Matching.Enumeration
import DoublePushout.Proofs.Matching.Exactness
import DoublePushout.Proofs.Matching.Monotone
import DoublePushout.Proofs.Matching.Nesting
import DoublePushout.Proofs.Matching.Normalised
import DoublePushout.Proofs.Matching.Occurrence
import DoublePushout.Proofs.Matching.Partition
import DoublePushout.Proofs.Matching.Reads
import DoublePushout.Proofs.Matching.Renumbering
import DoublePushout.Proofs.Matching.Safety
import DoublePushout.Proofs.Matching.Stack
import DoublePushout.Proofs.Positions
import DoublePushout.Proofs.Rule.Agreement
import DoublePushout.Proofs.Rule.Applicability
import DoublePushout.Proofs.Rule.Assembly
import DoublePushout.Proofs.Rule.Blocked
import DoublePushout.Proofs.Rule.Carry
import DoublePushout.Proofs.Rule.Comatch
import DoublePushout.Proofs.Rule.Commutation
import DoublePushout.Proofs.Rule.Count
import DoublePushout.Proofs.Rule.Decomposition
import DoublePushout.Proofs.Rule.Derivation
import DoublePushout.Proofs.Rule.Draft
import DoublePushout.Proofs.Rule.Exchange
import DoublePushout.Proofs.Rule.FirstFault
import DoublePushout.Proofs.Rule.Inverse
import DoublePushout.Proofs.Rule.Marking
import DoublePushout.Proofs.Rule.Neutral
import DoublePushout.Proofs.Rule.Normalised
import DoublePushout.Proofs.Rule.Prefix
import DoublePushout.Proofs.Rule.Pushout
import DoublePushout.Proofs.Rule.Redex
import DoublePushout.Proofs.Rule.Refusal
import DoublePushout.Proofs.Rule.Renumbering
import DoublePushout.Proofs.Rule.Result
import DoublePushout.Proofs.Rule.Safety
import DoublePushout.Proofs.Rule.Sketched
import DoublePushout.Proofs.Rule.Sketching
import DoublePushout.Proofs.Rule.Symmetry
import DoublePushout.Proofs.Steps
import DoublePushout.Rewriting
import DoublePushout.Rule
import DoublePushout.Rule.Annotation
import DoublePushout.Rule.Rewrite
import DoublePushout.Rule.Sketch
import DoublePushout.Text.Printed
import DoublePushout.Text.Quoted
import DoublePushout.Main
