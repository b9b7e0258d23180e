import TapeMachine.Main
import TapeMachine.Proofs.Forest
import TapeMachine.Proofs.Snapshot
import TapeMachine.Proofs.Tape
import TapeMachine.Service.Routing
import TapeMachine.Session
import TapeMachine.Proofs.BigStep
import TapeMachine.Proofs.Invariant
import TapeMachine.Proofs.Truncation
import TapeMachine.Proofs.Resumption
import TapeMachine.Proofs.Printing
import TapeMachine.Proofs.Scan
import TapeMachine.Proofs.Blame
import TapeMachine.Proofs.Lockstep
import TapeMachine.Proofs.Width
import TapeMachine.Proofs.TapeLength
import TapeMachine.Proofs.Consumption
import TapeMachine.Proofs.Layout
import TapeMachine.Proofs.History
import TapeMachine.Proofs.CommandLine
import TapeMachine.Proofs.Balance
import TapeMachine.Proofs.Matching
import TapeMachine.Proofs.Scripts
import TapeMachine.Proofs.Precedence
import TapeMachine.Proofs.LineEnding
import TapeMachine.Proofs.Loading
import TapeMachine.Proofs.Growth
import TapeMachine.Proofs.Allowance
import TapeMachine.Proofs.Budget
import TapeMachine.Proofs.Query
import TapeMachine.Proofs.Statistics
import TapeMachine.Proofs.Listing
import TapeMachine.Proofs.Echo
import TapeMachine.Proofs.AnswerShape
import TapeMachine.Proofs.Reuse
import TapeMachine.Proofs.Wraparound
