import VllmColdstartOperator.FleetController.Decisions

/-!
# The reconcile as a sequence of API calls

`reconcileInner` is the whole fleet reconcile as the list of calls it makes in
order: one apply for each slot that has a node, one delete for each surplus
child whose wait is over, and the status patch.  A reconcile that is cut, or
fails at a call, has made the calls before that one.
-/

namespace VllmColdstartOperator

open Foundation

inductive FleetError where
  | kube
  | missingNamespace
  | timeout
  deriving DecidableEq, Repr

def fleetManager : String := "fleet-controller"

/-- The child of one placement: the fleet's model and template, pinned. -/
def ownedVllmService (fleet : FleetService) (ns : String) (index : Nat)
    (nodeName : String) : VllmService where
  metadata := {
    name := childName fleet.name index
    ns := some ns
    uid := ""
    labels := some (BTreeMap.collect [
      ("app.kubernetes.io/managed-by", fleetManager),
      (fleetLabel, fleet.name)])
    ownerReferences := [{
      kind := "FleetService"
      name := fleet.name
      uid := fleet.metadata.uid
      controller := true }] }
  spec := {
    model := fleet.spec.model
    replicas := 1
    warmupStrategy := .eager
    image := fleet.spec.template.image
    gpu := fleet.spec.template.gpu
    healthPath := fleet.spec.template.healthPath
    runtimeClassName := fleet.spec.template.runtimeClassName
    extraArgs := fleet.spec.template.extraArgs
    cpu := fleet.spec.template.cpu
    memory := fleet.spec.template.memory
    nodeName := some nodeName
    modelCacheHostPath := fleet.spec.template.modelCacheHostPath
    apiKeySecretRef := fleet.spec.template.apiKeySecretRef
    objective := none
    budget := none }
  status := none

def buildOwnedVllmService (fleet : FleetService) (index : Nat) (nodeName : String) :
    Except FleetError VllmService :=
  match fleet.metadata.ns with
  | none => .error .missingNamespace
  | some ns => .ok (ownedVllmService fleet ns index nodeName)

/-- A merge patch of the status: every field, or the message and the selector
with a first phase and desired count for a fleet that has none yet. -/
inductive StatusPatch where
  | full (status : FleetServiceStatus)
  | message (text selector : String) (first : Option (String × Int32))
  deriving DecidableEq, Repr

def StatusPatch.merge (patch : StatusPatch) (status : Option FleetServiceStatus) :
    FleetServiceStatus :=
  match patch with
  | .full written => written
  | .message text selector first =>
      let old := status.getD FleetServiceStatus.empty
      let kept := { old with message := text, selector := selector }
      match first with
      | some (phase, desired) => { kept with phase := phase, desiredReplicas := desired }
      | none => kept

inductive Call where
  | applyChild (child : VllmService)
  | deleteChild (name : String)
  | patchStatus (patch : StatusPatch)

def unsupportedMessage : String :=
  "placement.strategy is not supported: Spread and BinPack were " ++
  "removed (ADR-0018); set WarmthFirst or EfficiencyAware"

def noNodeStateMessage : String :=
  "no candidate node: no NodeState has a status, and nodePool.selector is empty"

def selectorAdmitsNoneMessage : String :=
  "no candidate node: nodePool.selector admits none of the schedulable Nodes"

namespace ReconcileInput

variable (input : ReconcileInput)

def messagePatch (text : String) : StatusPatch :=
  let noPhase := match input.fleet.status with
    | none => true
    | some status => status.phase = ""
  .message text (fleetSelector input.fleet.name)
    (if noPhase then
      some (fleetPhaseFor input.fleet.spec.replicas 0 false, input.fleet.spec.replicas)
    else none)

def noCandidateMessage : String :=
  if input.fleet.spec.nodePool.selector.isEmpty then noNodeStateMessage
  else selectorAdmitsNoneMessage

/-! ## Apply loop -/

def applyCalls : Except FleetError (List Call) :=
  input.slotNodes.mapM fun (index, nodeName) =>
    (buildOwnedVllmService input.fleet index nodeName).map Call.applyChild

def advancedPhase (index : Nat) (preemption : Bool) : String :=
  let name := childName input.fleet.name index
  placementPhaseFor ((input.prevPhase[name]?).getD "Pending")
    ((input.childReady[name]?).getD false) preemption

/-- A slot with a record keeps it. -/
def appliedPlacement (slot : Nat × String) : PlacementStatus :=
  let name := childName input.fleet.name slot.1
  { vllmServiceRef := name
    nodeRef := slot.2
    phase := input.advancedPhase slot.1 (decide (slot.1 ∈ input.preemptedSlots))
    lastTransitionTime := ""
    stableSince := ""
    surplusReconciles := 0
    decidedOn := (input.prevDecided[name]?).or
      (decisionInputs input.candidates slot.2 input.strategy input.horizonSecs) }

/-! ## Scale-down -/

def surplus : List (Nat × String) :=
  input.current.toList.filter fun slot => ¬ slot.1 < input.desired

def surplusOutcome (index : Nat) : Int32 × Bool :=
  surplusHysteresis
    ((input.prevSurplus[childName input.fleet.name index]?).getD 0) true
    input.fleet.spec.hysteresis.stableReconcilesRequired

def heldPlacement (slot : Nat × String) : PlacementStatus :=
  let name := childName input.fleet.name slot.1
  { vllmServiceRef := name
    nodeRef := slot.2
    phase := input.advancedPhase slot.1 false
    lastTransitionTime := ""
    stableSince := ""
    surplusReconciles := (input.surplusOutcome slot.1).1
    decidedOn := input.prevDecided[name]? }

def heldSlots : List (Nat × String) :=
  input.surplus.filter fun slot => !(input.surplusOutcome slot.1).2

def removedSlots : List (Nat × String) :=
  input.surplus.filter fun slot => (input.surplusOutcome slot.1).2

def deleteCalls : List Call :=
  input.removedSlots.map fun slot => .deleteChild (childName input.fleet.name slot.1)

/-! ## Status -/

def slotKey (placement : PlacementStatus) : Nat :=
  (slotIndexOf placement.vllmServiceRef).getD usizeMax

def placements : List PlacementStatus :=
  (input.slotNodes.map input.appliedPlacement ++
    input.heldSlots.map input.heldPlacement).insertionSort
      fun left right => slotKey left ≤ slotKey right

def activeReschedules : Nat := input.placements.countP (isMoveInFlight input.displaced)

def readyReplicas : Nat :=
  input.placements.countP fun placement => placement.phase = "Ready"

def warmingReplicas : Nat :=
  input.placements.countP fun placement =>
    placement.phase = "Pending" ∨ placement.phase = "Warming"

def drainAndHold : Bool :=
  input.placements.any fun placement =>
    placement.phase = "Draining" ∧ placement.nodeRef ∈ input.displaced

def fullStatus : FleetServiceStatus where
  phase := fleetPhaseFor input.fleet.spec.replicas (Int32.ofNat input.readyReplicas)
    input.drainAndHold
  readyReplicas := Int32.ofNat input.readyReplicas
  desiredReplicas := input.fleet.spec.replicas
  replicas := Int32.ofNat input.placements.length
  selector := fleetSelector input.fleet.name
  warmingReplicas := Int32.ofNat input.warmingReplicas
  activeReschedules := Int32.ofNat input.activeReschedules
  placements := input.placements
  message := ""

/-- Whether the reconcile plans: the strategy is supported and some node is a
candidate. -/
def IsFull : Prop :=
  input.fleet.metadata.ns.isSome = true ∧ input.strategy.isSupported = true ∧
    input.poolCandidates ≠ []

end ReconcileInput

def reconcileInner (input : ReconcileInput) : Except FleetError (List Call) :=
  match input.fleet.metadata.ns with
  | none => .error .missingNamespace
  | some _ =>
      if !input.strategy.isSupported then
        .ok [.patchStatus (input.messagePatch unsupportedMessage)]
      else if input.poolCandidates.isEmpty then
        .ok [.patchStatus (input.messagePatch input.noCandidateMessage)]
      else do
        let applies ← input.applyCalls
        .ok (applies ++ input.deleteCalls ++ [.patchStatus (.full input.fullStatus)])

end VllmColdstartOperator
