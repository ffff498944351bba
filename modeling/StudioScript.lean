import StudioScript.Literal.Json
import StudioScript.Main
import StudioScript.Script.Detection
import StudioScript.Proofs.Execution.Errors
import StudioScript.Proofs.Execution.Incremental
import StudioScript.Proofs.Execution.Broadcast
import StudioScript.Proofs.Execution.Numbering
import StudioScript.Proofs.Execution.Chains
import StudioScript.Proofs.Execution.Provenance
import StudioScript.Proofs.Execution.Validity
import StudioScript.Proofs.Execution.Replay
import StudioScript.Proofs.Execution.Independence
import StudioScript.Proofs.Execution.Addressing
import StudioScript.Proofs.Execution.Comparisons
import StudioScript.Proofs.Execution.Derived
import StudioScript.Proofs.Execution.Failures
import StudioScript.Proofs.Execution.Automation
import StudioScript.Proofs.Session.Indices
import StudioScript.Proofs.Session.Fields
import StudioScript.Proofs.Session.Placing
import StudioScript.Proofs.Literal.Json
import StudioScript.Proofs.Number.Text
import StudioScript.Proofs.Token.Joining
import StudioScript.Proofs.Script.Joining
import StudioScript.Proofs.Script.Places
import StudioScript.Proofs.Script.Statements
import StudioScript.Proofs.Script.Rearranging
import StudioScript.Proofs.Action.Decoding
import StudioScript.Proofs.Execution.Counting
import StudioScript.Proofs.Script.Detection
import StudioScript.Proofs.Script.Termination
