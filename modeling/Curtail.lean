import Curtail.Main
import Curtail.Rehearsal.Folder
import Curtail.Rehearsal.World
import Curtail.Proofs.Instant.Text
import Curtail.Proofs.Digest.ProofHash
import Curtail.Proofs.Entity.RoundTrip
import Curtail.Proofs.Entity.Payload
import Curtail.Proofs.Index.RoundTrip
import Curtail.Proofs.Index.Recovery
import Curtail.Proofs.Index.Crash
import Curtail.Proofs.Index.Refinement
import Curtail.Proofs.Index.Handles
import Curtail.Proofs.Engine.Stage
import Curtail.Proofs.Engine.Task
import Curtail.Proofs.Engine.Schedule
import Curtail.Proofs.Index.Onward
import Curtail.Proofs.Index.Transitions
import Curtail.Proofs.Index.Updates
import Curtail.Proofs.Index.Range
import Curtail.Proofs.Index.Lifecycle
import Curtail.Proofs.Engine.Changes
import Curtail.Proofs.Engine.Rely
import Curtail.Proofs.Engine.Pass
import Curtail.Proofs.Engine.Conduct
import Curtail.Proofs.Engine.Service
import Curtail.Proofs.Engine.Alone
import Curtail.Proofs.Engine.Race
import Curtail.Proofs.Engine.Course
import Curtail.Proofs.Engine.Evidence
import Curtail.Proofs.Scoring
import Curtail.Proofs.Engine.Budget
import Curtail.Proofs.Engine.Completion
import Curtail.Proofs.Index.Commute
import Curtail.Proofs.Engine.Stale
import Curtail.Proofs.Json.Extension
import Curtail.Proofs.Index.Recorded
import Curtail.Proofs.Index.Damage
import Curtail.Proofs.Journal.Grammar
import Curtail.Proofs.Engine.Inquiry
import Curtail.Proofs.Ledger.Simulated
import Curtail.Proofs.Engine.Passage
import Curtail.Proofs.Engine.Simulation
import Curtail.Proofs.Engine.Confirmation
import Curtail.Proofs.Index.Opening
import Curtail.Proofs.Index.Refusal
import Curtail.Proofs.Json.Size
import Curtail.Proofs.Index.Size
import Curtail.Proofs.Engine.Offers
import Curtail.Proofs.Engine.Crowd
import Curtail.Proofs.Engine.Room
import Curtail.Proofs.Text.Blank
import Curtail.Proofs.Engine.Totals
import Curtail.Proofs.Engine.Declared
import Curtail.Proofs.Index.Hashes
import Curtail.Proofs.Engine.Issued
import Curtail.Proofs.Engine.Pipeline
import Curtail.Proofs.Engine.Summary
import Curtail.Proofs.Engine.Sequence
import Curtail.Proofs.Engine.Advance
import Curtail.Proofs.Instant.Order
import Curtail.Proofs.Engine.Dates
import Curtail.Proofs.Engine.Timeline
import Curtail.Proofs.Engine.Batch
import Curtail.Proofs.Index.Parts
import Curtail.Proofs.Engine.Woven
import Curtail.Proofs.Engine.Snapshot
import Curtail.Proofs.Index.Batch
import Curtail.Proofs.CommandLine.Listing
import Curtail.Proofs.Json.NormalForm
import Curtail.Proofs.Configuration
import Curtail.Proofs.Engine.Pending
