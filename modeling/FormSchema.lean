import FormSchema.Command.Directory
import FormSchema.Main
import FormSchema.Proofs.Accessors
import FormSchema.Proofs.Addressed
import FormSchema.Proofs.Bindings
import FormSchema.Proofs.BoundRun
import FormSchema.Proofs.Computed
import FormSchema.Proofs.CustomField
import FormSchema.Proofs.Date.SameDay
import FormSchema.Proofs.Descent
import FormSchema.Proofs.Directory
import FormSchema.Proofs.DynamicPaths
import FormSchema.Proofs.Execution
import FormSchema.Proofs.FieldCount
import FormSchema.Proofs.FoldedKey
import FormSchema.Proofs.History
import FormSchema.Proofs.Parsed
import FormSchema.Proofs.Identifier
import FormSchema.Proofs.InferAgain
import FormSchema.Proofs.ItemPath
import FormSchema.Proofs.Level.Following
import FormSchema.Proofs.Level.Kept
import FormSchema.Proofs.Live
import FormSchema.Proofs.Nulled
import FormSchema.Proofs.Numbering
import FormSchema.Proofs.OrderedMap
import FormSchema.Proofs.Options
import FormSchema.Proofs.Outcome
import FormSchema.Proofs.OwnKind
import FormSchema.Proofs.Position
import FormSchema.Proofs.Preservation
import FormSchema.Proofs.PrintedPaths
import FormSchema.Proofs.Projection
import FormSchema.Proofs.Punycode.Checked
import FormSchema.Proofs.Punycode.Decoder
import FormSchema.Proofs.Punycode.RoundTrip
import FormSchema.Proofs.Reachable
import FormSchema.Proofs.ReadBack
import FormSchema.Proofs.Recorded
import FormSchema.Proofs.Recursion.Depth
import FormSchema.Proofs.Regular
import FormSchema.Proofs.Reordered
import FormSchema.Proofs.Replacement
import FormSchema.Proofs.Resolution
import FormSchema.Proofs.Retyping
import FormSchema.Proofs.Run
import FormSchema.Proofs.Sample
import FormSchema.Proofs.Settled
import FormSchema.Proofs.SettledRun
import FormSchema.Proofs.Storable
import FormSchema.Proofs.Stored
import FormSchema.Proofs.Structure
import FormSchema.Proofs.SurvivingPath
import FormSchema.Proofs.Unchanged
import FormSchema.Proofs.Walk
import FormSchema.Session
import FormSchema.Proofs.Plausible
import FormSchema.Proofs.Renumbering
import FormSchema.Proofs.SourcePath
import FormSchema.Proofs.StringLiteral
import FormSchema.Proofs.Email
import FormSchema.Proofs.InvalidRoot
import FormSchema.Proofs.StoredState
import FormSchema.Proofs.Pattern
