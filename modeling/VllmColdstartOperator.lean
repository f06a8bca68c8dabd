import VllmColdstartOperator.Foundation.BTreeMap
import VllmColdstartOperator.Foundation.Text
import VllmColdstartOperator.Foundation.Comparator
import VllmColdstartOperator.Foundation.F32
import VllmColdstartOperator.Foundation.Rounding
import VllmColdstartOperator.Foundation.F64
import VllmColdstartOperator.Foundation.Runs
import VllmColdstartOperator.Foundation.Interleaving
import VllmColdstartOperator.Foundation.Fairness
import VllmColdstartOperator.Foundation.Watched
import VllmColdstartOperator.Foundation.Counters
import VllmColdstartOperator.Foundation.Spread
import VllmColdstartOperator.Foundation.Labels
import VllmColdstartOperator.Foundation.MergePatch
import VllmColdstartOperator.Foundation.Fields
import VllmColdstartOperator.Kubernetes
import VllmColdstartOperator.VllmService
import VllmColdstartOperator.Metrics
import VllmColdstartOperator.FleetTypes
import VllmColdstartOperator.FleetPlacement
import VllmColdstartOperator.FleetPlanning
import VllmColdstartOperator.FleetController.Candidates
import VllmColdstartOperator.FleetController.Decisions
import VllmColdstartOperator.FleetController.Reconcile
import VllmColdstartOperator.FleetController.Passes
import VllmColdstartOperator.FleetController.Placements
import VllmColdstartOperator.FleetController.Positions
import VllmColdstartOperator.FleetController.World
import VllmColdstartOperator.FleetController.Fleets
import VllmColdstartOperator.VllmServiceController.Objects
import VllmColdstartOperator.VllmServiceController.Cluster
import VllmColdstartOperator.VllmServiceController.Services
import VllmColdstartOperator.VllmServiceController.Turns
import VllmColdstartOperator.Reporter.Sources
import VllmColdstartOperator.Reporter.Report
import VllmColdstartOperator.Guarantees.Pins
import VllmColdstartOperator.Guarantees.ScaleDown
import VllmColdstartOperator.Guarantees.DecidedOn
import VllmColdstartOperator.Guarantees.InFlight
import VllmColdstartOperator.Guarantees.NoCandidate
import VllmColdstartOperator.Guarantees.Cordon
import VllmColdstartOperator.Guarantees.Spread
import VllmColdstartOperator.Guarantees.Census
import VllmColdstartOperator.Guarantees.Phase
import VllmColdstartOperator.Guarantees.Eligibility
import VllmColdstartOperator.Guarantees.Counter
import VllmColdstartOperator.Guarantees.Batch
import VllmColdstartOperator.Guarantees.Resumption
import VllmColdstartOperator.Guarantees.Retry
import VllmColdstartOperator.Guarantees.Convergence
import VllmColdstartOperator.Guarantees.ReadyOnNode
import VllmColdstartOperator.Guarantees.Watch
import VllmColdstartOperator.Guarantees.Retention
import VllmColdstartOperator.Guarantees.Scrape
import VllmColdstartOperator.Guarantees.Join
import VllmColdstartOperator.Guarantees.Selection
import VllmColdstartOperator.Guarantees.Signals
import VllmColdstartOperator.Guarantees.RankedOn
import VllmColdstartOperator.Guarantees.Message
import VllmColdstartOperator.Guarantees.Preemption
import VllmColdstartOperator.Guarantees.Headroom
import VllmColdstartOperator.Guarantees.Fill
import VllmColdstartOperator.Guarantees.ListOrder
import VllmColdstartOperator.Guarantees.Selectors
import VllmColdstartOperator.Guarantees.Writers
import VllmColdstartOperator.Guarantees.Warmth
import VllmColdstartOperator.Guarantees.Callers
import VllmColdstartOperator.Guarantees.Naming
import VllmColdstartOperator.Guarantees.Landing
import VllmColdstartOperator.Guarantees.Load
import VllmColdstartOperator.Guarantees.Energy
import VllmColdstartOperator.Guarantees.Exposition
import VllmColdstartOperator.Guarantees.Deltas
import VllmColdstartOperator.Guarantees.HitRate
import VllmColdstartOperator.Guarantees.Apart
import VllmColdstartOperator.Guarantees.Drain
import VllmColdstartOperator.Guarantees.Provenance
import VllmColdstartOperator.Stored.NodeState
import VllmColdstartOperator.Guarantees.StoredNodeState
import VllmColdstartOperator.Stored.FleetStatus
import VllmColdstartOperator.Guarantees.StoredFleet
import VllmColdstartOperator.Guarantees.Rollout
import VllmColdstartOperator.Guarantees.ComesUp
import VllmColdstartOperator.Guarantees.Unused
import VllmColdstartOperator.Guarantees.InPlace
import VllmColdstartOperator.Guarantees.Shown
import VllmColdstartOperator.Guarantees.Asked
