import Workflow.Main
import Workflow.Service.Route
import Workflow.Proofs.Nesting.Level
import Workflow.Proofs.Walk.Basic
import Workflow.Proofs.Walk.Search
import Workflow.Proofs.Walk.EdgeOrder
import Workflow.Proofs.Walk.Spread
import Workflow.Proofs.Walk.Way
import Workflow.Proofs.Walk.Ascent
import Workflow.Proofs.Nesting.Host
import Workflow.Proofs.Nesting.Context
import Workflow.Proofs.Nesting.Nests
import Workflow.Proofs.Nesting.Resolution
import Workflow.Proofs.Editing.BlockRemoval
import Workflow.Proofs.Editing.Closing
import Workflow.Proofs.Editing.Grafting
import Workflow.Proofs.Editing.Order
import Workflow.Proofs.Editing.Session
import Workflow.Proofs.Editing.Joining
import Workflow.Proofs.Editing.Takeover
import Workflow.Proofs.Editing.StepRemoval
import Workflow.Proofs.Editing.Supplanting
import Workflow.Proofs.Editing.Bridging
import Workflow.Proofs.Editing.Leftover
import Workflow.Proofs.Editing.Clearance
import Workflow.Proofs.Editing.Branching
import Workflow.Proofs.Editing.Acyclicity
import Workflow.Proofs.Service.Legibility
import Workflow.Proofs.Service.Exchange
import Workflow.Proofs.Service.Passage
import Workflow.Proofs.Nesting.Lane
import Workflow.Proofs.Editing.Trimming
import Workflow.Proofs.Editing.Stranding
import Workflow.Proofs.Editing.Narrowing
import Workflow.Proofs.Editing.Parting
import Workflow.Proofs.Editing.Mislaying
import Workflow.Proofs.Editing.Preservation
import Workflow.Proofs.Editing.Guarding
import Workflow.Proofs.Editing.Rooting
import Workflow.Proofs.Editing.Overlooking
import Workflow.Proofs.Editing.Seating
import Workflow.Proofs.Editing.Withdrawal
import Workflow.Proofs.Editing.Renewal
import Workflow.Proofs.Walk.Likeness
import Workflow.Proofs.Editing.Pinning
import Workflow.Proofs.Editing.Grounding
import Workflow.Proofs.Editing.Relabelling
import Workflow.Proofs.Editing.Reshuffling
import Workflow.Proofs.Walk.Leeway
import Workflow.Proofs.Walk.Interior
import Workflow.Proofs.Service.Restating
import Workflow.Proofs.Service.Tally
