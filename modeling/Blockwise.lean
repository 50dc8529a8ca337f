import Blockwise.Block.Summary
import Blockwise.Engine.Describe
import Blockwise.Engine.Operation
import Blockwise.Link.Drive
import Blockwise.Proofs.Accepting
import Blockwise.Proofs.AckOrder
import Blockwise.Proofs.Admission
import Blockwise.Proofs.Alike
import Blockwise.Proofs.Answering
import Blockwise.Proofs.Audit
import Blockwise.Proofs.BlockOption
import Blockwise.Proofs.Calls
import Blockwise.Proofs.Change
import Blockwise.Proofs.Checked
import Blockwise.Proofs.Cooperation
import Blockwise.Proofs.Course
import Blockwise.Proofs.Dispatch
import Blockwise.Proofs.Draws
import Blockwise.Proofs.Faultless
import Blockwise.Proofs.Fill
import Blockwise.Proofs.Handing
import Blockwise.Proofs.History
import Blockwise.Proofs.Inspection
import Blockwise.Proofs.Integrity
import Blockwise.Proofs.Isolation
import Blockwise.Proofs.Keeping
import Blockwise.Proofs.Ledger
import Blockwise.Proofs.Messages
import Blockwise.Proofs.NoStall
import Blockwise.Proofs.OptionWord
import Blockwise.Proofs.Outcomes
import Blockwise.Proofs.Partition
import Blockwise.Proofs.Paths
import Blockwise.Proofs.Posting
import Blockwise.Proofs.Progress
import Blockwise.Proofs.Projection
import Blockwise.Proofs.Reasons
import Blockwise.Proofs.Receiver
import Blockwise.Proofs.Refusals
import Blockwise.Proofs.Renaming
import Blockwise.Proofs.Sending
import Blockwise.Proofs.Setting
import Blockwise.Proofs.Simulation
import Blockwise.Proofs.Slicing
import Blockwise.Proofs.Sliding
import Blockwise.Proofs.Snapshots
import Blockwise.Proofs.Stale
import Blockwise.Proofs.Summaries
import Blockwise.Proofs.Tokens
import Blockwise.Proofs.Trace
import Blockwise.Proofs.Window
