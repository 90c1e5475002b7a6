import LabBench.Text.PairList
import LabBench.Resource.Monitor
import LabBench.Proofs.Wrappers
import LabBench.Collection
import LabBench.Proofs.Bulletin
import LabBench.Surface.Mesh
import LabBench.Proofs.Sweep.Expansion
import LabBench.Sweep.Journal
import LabBench.Instrument.Setup
import LabBench.Sweep.Station
import LabBench.Pulse.Tunable
import LabBench.Proofs.Sweep.Checks
import LabBench.Proofs.Sweep.Table
import LabBench.Proofs.Sweep.Closing
import LabBench.Proofs.Sweep.Continuity
import LabBench.Proofs.Pulse.Dictionaries
import LabBench.Proofs.Wire.Sections
import LabBench.Proofs.Wire.Waiting
import LabBench.Proofs.Quantity.Representation
import LabBench.Proofs.Waveform.Replacement
import LabBench.Proofs.Magnet.Interlock
import LabBench.Proofs.Magnet.Sweeping
import LabBench.Proofs.Pulse.Joining
import LabBench.Proofs.Field.Operations
import LabBench.Proofs.Voltage.Resolution
import LabBench.Proofs.Voltage.Outlets
import LabBench.Proofs.Pulse.Capacity
import LabBench.Proofs.Pulse.Delays
import LabBench.Proofs.Quantity.Tolerance
import LabBench.Proofs.Quantity.Spelling
