import Raceboat.States.Link
import Raceboat.States.LinkId
import Raceboat.States.NodeState
import Raceboat.States.Run
import Raceboat.Schedule.Net
import Raceboat.Schedule.Invariant
import Raceboat.Schedule.Preservation
import Raceboat.Schedule.Safety
import Raceboat.Schedule.Monotone
import Raceboat.Schedule.Batch
import Raceboat.Knowledge.Shape
import Raceboat.Knowledge.Round
import Raceboat.Knowledge.Simulation
import Raceboat.Knowledge.Compute
import Raceboat.Correctness.Ceiling
import Raceboat.Correctness.Renaming
import Raceboat.Correctness.Scenarios
import Raceboat.Correctness.Creation
import Raceboat.Correctness.Quiescence
