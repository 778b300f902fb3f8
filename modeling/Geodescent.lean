import Geodescent.Distance
import Geodescent.Exchange.Described
import Geodescent.Exchange.Streams
import Geodescent.Exchange.Value
import Geodescent.Manifold.Sampling
import Geodescent.Outcome
import Geodescent.Proofs.Criterion.Chained
import Geodescent.Proofs.Descent.Decrease
import Geodescent.Proofs.Descent.Stranded
import Geodescent.Proofs.Double
import Geodescent.Proofs.Flat.Contraction
import Geodescent.Proofs.Flat.Proximal
import Geodescent.Proofs.Manifold.GreatCircle
import Geodescent.Proofs.Manifold.Membership
import Geodescent.Proofs.Observation.Afresh
import Geodescent.Proofs.Observation.Change
import Geodescent.Proofs.Observation.Final
import Geodescent.Proofs.Observation.Log
import Geodescent.Proofs.Observation.Lookup
import Geodescent.Proofs.Observation.Output
import Geodescent.Proofs.Observation.Record.Acting
import Geodescent.Proofs.Observation.Undisturbed
import Geodescent.Proofs.Observation.Vocabulary
import Geodescent.Proofs.Parameter.Slot
import Geodescent.Proofs.Parameter.Validation
import Geodescent.Proofs.Run.Bounded
import Geodescent.Proofs.Run.Leftover
import Geodescent.Proofs.Run.Rejected
import Geodescent.Proofs.Run.Severed
import Geodescent.Proofs.Run.Steering
import Geodescent.Proofs.Settings
import Geodescent.Proofs.Stepsize.Budget
import Geodescent.Proofs.Stepsize.Outgrown
import Geodescent.Proofs.Stepsize.Trials
import Geodescent.Proofs.Sweep.Withheld
import Geodescent.Report
import Geodescent.Simulation.Rules
