import SequenceMachine.Config.Document
import SequenceMachine.Machine.Operation
import SequenceMachine.Proofs.Machine.Faultless
import SequenceMachine.Proofs.Machine.Isolation
import SequenceMachine.Proofs.Sequence.ReadBack
import SequenceMachine.Proofs.Sequence.Rotation
import SequenceMachine.Proofs.Machine.Cause
import SequenceMachine.Proofs.Machine.Failure
import SequenceMachine.Proofs.Sequence.Elements
import SequenceMachine.Proofs.Machine.Ownership
import SequenceMachine.Proofs.Machine.Dangling
import SequenceMachine.Proofs.Machine.LimitedRun
import SequenceMachine.Proofs.Emission
import SequenceMachine.Proofs.Machine.Precheck
import SequenceMachine.Proofs.Machine.Naming
import SequenceMachine.Proofs.Sequence.Position
import SequenceMachine.Proofs.Sequence.Calls
import SequenceMachine.Proofs.Heap.History
import SequenceMachine.Proofs.Machine.Telling
import SequenceMachine.Proofs.Machine.Log
import SequenceMachine.Proofs.Machine.Reports
import SequenceMachine.Proofs.Heap.Aliasing
import SequenceMachine.Proofs.Machine.Composition
import SequenceMachine.Proofs.Sequence.Prediction
import SequenceMachine.Proofs.Sequence.Reading
import SequenceMachine.Proofs.Sequence.Subslice
import SequenceMachine.Proofs.Sequence.Turned
import SequenceMachine.Proofs.Sequence.Deletion
import SequenceMachine.Proofs.Sequence.Edits
import SequenceMachine.Proofs.Sequence.Undo
import SequenceMachine.Proofs.Sequence.Period
import SequenceMachine.Proofs.Sequence.Agreement
import SequenceMachine.Proofs.Machine.Footprint
import SequenceMachine.Proofs.Sequence.Arithmetic
import SequenceMachine.Proofs.Toml.Fields
import SequenceMachine.Proofs.Toml.Parser
import SequenceMachine.Proofs.Toml.Distinct
import SequenceMachine.Proofs.Toml.Written
import SequenceMachine.Proofs.Config.Schema
import SequenceMachine.Proofs.Config.Reading
