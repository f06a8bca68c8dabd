import VllmColdstartOperator.FleetController.Candidates

/-!
# Which node each slot gets

The first half of `reconcile_inner`: the current pins and the previous status
are read, the fleet's own load is folded into the candidates, the preemption
pass moves displaced slots within the budget, and the slots with no child are
planned.  Every definition is a function of one `ReconcileInput`.
-/

namespace VllmColdstartOperator

open Foundation Std

/-- Everything one fleet reconcile reads; `existing` is the answer to the
label query over the fleet's children. -/
structure ReconcileInput where
  fleet : FleetService
  snapshot : Snapshot
  existing : List VllmService

/-! ## Children and their slots -/

def childName (fleetName : String) (index : Nat) : String :=
  fleetName ++ "-" ++ toString index

def slotIndexOf (name : String) : Option Nat := do
  let (_, suffix) ← rsplitOnce name '-'
  parseUsize suffix

def slotPin (child : VllmService) : Option (Nat × String) := do
  let index ← slotIndexOf child.name
  let node ← child.spec.nodeName
  some (index, node)

def isReady (child : VllmService) : Bool :=
  (child.status.map fun status => decide (status.phase = "Ready")).getD false

def ownPlacementsPerNode (current : BTreeMap Nat String) : BTreeMap String Int32 :=
  (current.toList.map Prod.snd).foldl
    (fun counts node => counts.insert node ((counts[node]?).getD 0 + 1)) ∅

/-! ## The record of a decision -/

/-- The node's signals, whatever the strategy ranks on, the efficiency ones only
within the horizon. -/
def decisionInputs (candidates : List NodeCandidate) (node : String)
    (strategy : PlacementStrategy) (horizonSecs : Option Int) :
    Option PlacementDecisionInputs := do
  let candidate ← candidates.find? fun candidate => candidate.name = node
  let fresh (value : Option F32) (age : Option Int) : Option F32 :=
    match horizonSecs, age with
    | none, _ => value
    | some _, none => none
    | some horizon, some age => if 0 ≤ age ∧ age ≤ horizon then value else none
  some {
    strategy := strategy.debug
    warmth := some candidate.warmth.debug
    tokensPerJoule := fresh candidate.tokensPerJoule candidate.tokensPerJouleAgeSecs
    kvCacheHitRate := fresh candidate.kvCacheHitRate candidate.kvCacheHitRateAgeSecs
    gpuUtilization := candidate.gpuUtilization
    activeServiceCount := candidate.activeServiceCount }

/-! ## Folding the fleet's own load and the derived warmth -/

def warmthInstance (fleet : FleetService) (service : VllmService) : Option WarmthInstance :=
  if service.spec.model ≠ fleet.spec.model then none
  else do
    let node ← service.spec.nodeName
    let own := service.metadata.ns = fleet.metadata.ns ∧
      service.metadata.label fleetLabel = some fleet.name
    some (node, service.status.map VllmServiceStatus.phase, own)

/-- An unmeasured node with none of the fleet's replicas stays unmeasured. -/
def foldOwnLoad (ownCounts : BTreeMap String Int32)
    (derivedWarmth : BTreeMap String Warmth) (candidate : NodeCandidate) : NodeCandidate :=
  let own := (ownCounts[candidate.name]?).getD 0
  { candidate with
    ownReplicas := own
    activeServiceCount :=
      if own > 0 then some (candidate.activeServiceCount.getD 0 + own)
      else candidate.activeServiceCount
    warmth :=
      match derivedWarmth[candidate.name]? with
      | some warmth => warmer candidate.warmth warmth
      | none => candidate.warmth }

/-! ## The preemption pass -/

structure PreemptionPass where
  budget : Nat
  preemptedSlots : BTreeSet Nat
  moved : BTreeMap Nat String

/-- A displaced slot drains; it moves when the budget and a survivor allow. -/
def PreemptionPass.visit (displaced : BTreeSet String) (replacement : String → Option String)
    (pass : PreemptionPass) (slot : Nat × String) : PreemptionPass :=
  if slot.2 ∈ displaced then
    let pass := { pass with preemptedSlots := pass.preemptedSlots.insert slot.1 }
    if pass.budget = 0 then pass
    else match replacement slot.2 with
      | some target =>
          { pass with
            moved := pass.moved.insert slot.1 target
            budget := pass.budget - 1 }
      | none => pass
  else pass

/-- The in-range slots that get a node: moved, kept, or the next fresh one. -/
def assignSlots (moved current : BTreeMap Nat String) :
    List Nat → List String → List (Nat × String)
  | [], _ => []
  | index :: indices, fresh =>
      match moved[index]? with
      | some target => (index, target) :: assignSlots moved current indices fresh
      | none =>
          match current[index]? with
          | some existingNode =>
              (index, existingNode) :: assignSlots moved current indices fresh
          | none =>
              match fresh with
              | node :: fresh => (index, node) :: assignSlots moved current indices fresh
              | [] => assignSlots moved current indices []

/-- A move in flight: draining or rescheduling on a node not displaced now. -/
def isMoveInFlight (displaced : BTreeSet String) (placement : PlacementStatus) : Bool :=
  (placement.phase = "Draining" ∨ placement.phase = "Rescheduling") ∧
    placement.nodeRef ∉ displaced

namespace ReconcileInput

variable (input : ReconcileInput)

def strategy : PlacementStrategy := input.fleet.spec.placement.strategy

def horizonSecs : Option Int := input.fleet.spec.placement.signalMaxAgeSeconds

def gpuRequest : Int32 := input.fleet.spec.template.gpu

def displaced : BTreeSet String := input.snapshot.displaced

def poolCandidates : List NodeCandidate :=
  input.snapshot.poolCandidates input.fleet.spec.nodePool.selector

def current : BTreeMap Nat String :=
  BTreeMap.collect (input.existing.filterMap slotPin)

def childReady : BTreeMap String Bool :=
  BTreeMap.collect (input.existing.map fun child => (child.name, isReady child))

def prevPhase : BTreeMap String String :=
  BTreeMap.collect (input.fleet.placements.map fun placement =>
    (placement.vllmServiceRef, placement.phase))

def prevDecided : BTreeMap String PlacementDecisionInputs :=
  BTreeMap.collect (input.fleet.placements.filterMap fun placement =>
    placement.decidedOn.map fun decided => (placement.vllmServiceRef, decided))

def prevSurplus : BTreeMap String Int32 :=
  BTreeMap.collect (input.fleet.placements.map fun placement =>
    (placement.vllmServiceRef, placement.surplusReconciles))

def derivedWarmth : BTreeMap String Warmth :=
  match input.snapshot.allServices with
  | some services => deriveWarmth (services.filterMap (warmthInstance input.fleet))
  | none => ∅

def ownCounts : BTreeMap String Int32 := ownPlacementsPerNode input.current

def candidates : List NodeCandidate :=
  input.poolCandidates.map (foldOwnLoad input.ownCounts input.derivedWarmth)

def desired : Nat := input.fleet.spec.replicas.toInt.toNat

def cap : Nat := input.fleet.spec.hysteresis.maxConcurrentReschedules.toInt.toNat

def inFlightMoves : Nat := input.fleet.placements.countP (isMoveInFlight input.displaced)

def budget : Nat := input.cap - input.inFlightMoves

def healthyCandidates : List NodeCandidate :=
  (input.candidates.filter fun candidate => candidate.name ∉ input.displaced).filter
    fun candidate =>
      hasCapacityFor ((input.snapshot.allocatable input.gpuRequest)[candidate.name]?).join
        input.gpuRequest

def replacement (node : String) : Option String :=
  selectReplacementNode input.healthyCandidates node input.strategy input.horizonSecs

def preemptionPass : PreemptionPass :=
  input.current.toList.foldl (PreemptionPass.visit input.displaced input.replacement)
    ⟨input.budget, ∅, ∅⟩

def preemptedSlots : BTreeSet Nat := input.preemptionPass.preemptedSlots

def moved : BTreeMap Nat String := input.preemptionPass.moved

def missing : List Nat := (List.range input.desired).filter fun index => index ∉ input.current

def fresh : List String :=
  planInitialPlacements (Int32.ofNat input.missing.length) input.healthyCandidates
    input.strategy input.horizonSecs

def slotNodes : List (Nat × String) :=
  assignSlots input.moved input.current (List.range input.desired) input.fresh

end ReconcileInput

end VllmColdstartOperator
