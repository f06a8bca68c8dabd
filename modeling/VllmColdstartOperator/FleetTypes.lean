import VllmColdstartOperator.Foundation.F32
import VllmColdstartOperator.VllmService

/-!
# Fleet resources and their pure transitions

`FleetService`, `NodeState` and their statuses, with the three pure functions
the fleet controller advances them by: the surplus counter, the placement
phase and the fleet phase.  Phases are the strings stored in the status, so a
previous status may hold any text.
-/

namespace VllmColdstartOperator

open Foundation

/-! ## Resources -/

structure FleetServiceTemplate where
  runtimeClassName : Option String
  extraArgs : List String
  cpu : Option String
  memory : Option String
  gpu : Int32
  healthPath : String
  image : String
  modelCacheHostPath : Option String
  apiKeySecretRef : Option ApiKeySecretRef
  deriving DecidableEq, Repr

structure NodePoolSpec where
  selector : BTreeMap String String

inductive PlacementStrategy where
  | warmthFirst
  | efficiencyAware
  | unsupported
  deriving DecidableEq, Repr

namespace PlacementStrategy

def isSupported (strategy : PlacementStrategy) : Bool := strategy ≠ .unsupported

def debug : PlacementStrategy → String
  | .warmthFirst => "WarmthFirst"
  | .efficiencyAware => "EfficiencyAware"
  | .unsupported => "Unsupported"

end PlacementStrategy

structure PlacementSpec where
  strategy : PlacementStrategy
  signalMaxAgeSeconds : Option Int
  deriving DecidableEq, Repr

structure HysteresisSpec where
  stableReconcilesRequired : Int32
  maxConcurrentReschedules : Int32
  deriving DecidableEq, Repr

structure FleetServiceSpec where
  model : String
  replicas : Int32
  template : FleetServiceTemplate
  nodePool : NodePoolSpec
  placement : PlacementSpec
  hysteresis : HysteresisSpec

def fleetLabel : String := "inference.michelecampi.dev/fleet"

def fleetSelector (fleetName : String) : String := fleetLabel ++ "=" ++ fleetName

inductive Warmth where
  | cold
  | warming
  | warm
  deriving DecidableEq, Repr

def Warmth.debug : Warmth → String
  | .cold => "Cold"
  | .warming => "Warming"
  | .warm => "Warm"

structure PlacementDecisionInputs where
  strategy : String
  warmth : Option String
  tokensPerJoule : Option F32
  kvCacheHitRate : Option F32
  gpuUtilization : Option F32
  activeServiceCount : Option Int32
  deriving DecidableEq, Repr

structure PlacementStatus where
  vllmServiceRef : String
  nodeRef : String
  phase : String
  lastTransitionTime : String
  stableSince : String
  surplusReconciles : Int32
  decidedOn : Option PlacementDecisionInputs
  deriving DecidableEq, Repr

def PlacementStatus.withoutRecord (placement : PlacementStatus) : PlacementStatus :=
  { placement with decidedOn := none }

structure FleetServiceStatus where
  phase : String
  readyReplicas : Int32
  desiredReplicas : Int32
  replicas : Int32
  selector : String
  warmingReplicas : Int32
  activeReschedules : Int32
  placements : List PlacementStatus
  message : String
  deriving DecidableEq, Repr

/-- What a status reads as when every field is absent. -/
def FleetServiceStatus.empty : FleetServiceStatus :=
  ⟨"", 0, 0, 0, "", 0, 0, [], ""⟩

structure FleetService where
  metadata : ObjectMeta
  spec : FleetServiceSpec
  status : Option FleetServiceStatus

def FleetService.name (fleet : FleetService) : String := fleet.metadata.name

def FleetService.placements (fleet : FleetService) : List PlacementStatus :=
  (fleet.status.map FleetServiceStatus.placements).getD []

structure SpotStatus where
  isSpotInstance : Bool
  preemptionNoticeDetected : Bool
  preemptionNoticeTime : String
  deriving DecidableEq, Repr

structure NodeStateStatus where
  observedGeneration : Int
  lastReportTime : String
  warmth : Warmth
  gpuUtilization : Option F32
  gpuMemoryUsedBytes : Option Int
  activeServiceCount : Option Int32
  kvCacheHitRate : Option F32
  kvCacheHitRateObservedAt : Option String
  tokensPerJoule : Option F32
  tokensPerJouleObservedAt : Option String
  requestsWaiting : Option F32
  requestsRunning : Option F32
  spot : SpotStatus
  deriving DecidableEq, Repr

structure NodeState where
  metadata : ObjectMeta
  status : Option NodeStateStatus

def NodeState.name (state : NodeState) : String := state.metadata.name

/-! ## Scale-down hysteresis -/

def i32Max : Int32 := 2147483647

def saturatingSucc (value : Int32) : Int32 :=
  if value = i32Max then i32Max else value + 1

/-- The counter to persist, and whether the placement may be removed now. -/
def surplusHysteresis (prev : Int32) (inSurplus : Bool) (required : Int32) :
    Int32 × Bool :=
  if !inSurplus then (0, false)
  else if required ≤ 0 then (0, true)
  else
    let next := saturatingSucc (max prev 0)
    (next, next ≥ required)

theorem saturatingSucc_toInt (value : Int32) :
    (saturatingSucc value).toInt = min (value.toInt + 1) (2 ^ 31 - 1) := by
  have hlow := value.le_toInt
  have hhigh := value.toInt_lt
  unfold saturatingSucc
  by_cases hmax : value = i32Max
  · simp [hmax, i32Max]
  · have hne : value.toInt ≠ 2147483647 := by
      intro heq
      exact hmax (Int32.toInt_inj.mp (by simpa [i32Max] using heq))
    rw [if_neg hmax, Int32.toInt_add]
    have hone : (1 : Int32).toInt = 1 := rfl
    rw [hone, Int.bmod_eq_of_le (by omega) (by omega)]
    omega

theorem max_zero_toInt (value : Int32) : (max value 0).toInt = max value.toInt 0 := by
  have hzero : (0 : Int32).toInt = 0 := rfl
  change (if value ≤ 0 then (0 : Int32) else value).toInt = _
  by_cases hle : value ≤ 0
  · have := Int32.le_iff_toInt_le.mp hle
    rw [if_pos hle]
    omega
  · have hlt : ¬ value.toInt ≤ (0 : Int32).toInt := fun h => hle (Int32.le_iff_toInt_le.mpr h)
    rw [if_neg hle]
    omega

/-- What the counter of a surplus slot does, for a wait that saturates it. -/
theorem surplusHysteresis_wait {prev required : Int32} {wait : Nat}
    (hprev : prev.toInt = min (wait : Int) (2 ^ 31 - 1)) :
    ((surplusHysteresis prev true required).2 = true ↔ max 1 required.toInt ≤ wait + 1) ∧
      ((surplusHysteresis prev true required).2 = false →
        (surplusHysteresis prev true required).1.toInt = min ((wait : Int) + 1) (2 ^ 31 - 1)) := by
  have hzero : (0 : Int32).toInt = 0 := rfl
  have hbound := required.toInt_lt
  unfold surplusHysteresis
  simp only [Bool.not_true, Bool.false_eq_true, if_false]
  by_cases hle : required ≤ 0
  · have hrequired := Int32.le_iff_toInt_le.mp hle
    rw [if_pos hle]
    simp only [true_iff, Bool.true_eq_false, false_implies, and_true]
    omega
  · have hrequired : ¬ required.toInt ≤ (0 : Int32).toInt := fun h =>
      hle (Int32.le_iff_toInt_le.mpr h)
    have hnext : (saturatingSucc (max prev 0)).toInt = min ((wait : Int) + 1) (2 ^ 31 - 1) := by
      rw [saturatingSucc_toInt, max_zero_toInt, hprev]
      omega
    rw [if_neg hle]
    refine ⟨?_, fun _ => hnext⟩
    simp only [decide_eq_true_eq, ge_iff_le, Int32.le_iff_toInt_le, hnext]
    omega

theorem surplusHysteresis_held {prev required : Int32}
    (hheld : (surplusHysteresis prev true required).2 = false) :
    (surplusHysteresis prev true required).1.toInt =
        min (max prev.toInt 0 + 1) (2 ^ 31 - 1) ∧
      (surplusHysteresis prev true required).1.toInt < required.toInt := by
  unfold surplusHysteresis at hheld ⊢
  simp only [Bool.not_true, Bool.false_eq_true, if_false] at hheld ⊢
  by_cases hle : required ≤ 0
  · simp [hle] at hheld
  · rw [if_neg hle] at hheld ⊢
    simp only [decide_eq_false_iff_not, ge_iff_le, Int32.le_iff_toInt_le, not_le] at hheld
    exact ⟨by rw [saturatingSucc_toInt, max_zero_toInt], hheld⟩

/-! ## Placement phase -/

/-- A preemption takes priority over every other transition. -/
def placementPhaseFor (currentPhase : String) (nodeReady preemptionNotice : Bool) :
    String :=
  if preemptionNotice then "Draining"
  else if currentPhase = "Draining" ∨ currentPhase = "Preempted" then "Rescheduling"
  else if nodeReady then "Ready"
  else if currentPhase = "Ready" then "Warming"
  else "Pending"

@[simp] theorem placementPhaseFor_preempted (currentPhase : String) (nodeReady : Bool) :
    placementPhaseFor currentPhase nodeReady true = "Draining" := rfl

theorem placementPhaseFor_ready {currentPhase : String} {nodeReady preemptionNotice : Bool}
    (hready : placementPhaseFor currentPhase nodeReady preemptionNotice = "Ready") :
    preemptionNotice = false ∧ currentPhase ≠ "Draining" ∧
      currentPhase ≠ "Preempted" ∧ nodeReady = true := by
  unfold placementPhaseFor at hready
  cases preemptionNotice <;> cases nodeReady <;>
    by_cases hdraining : currentPhase = "Draining" <;>
      by_cases hpreempted : currentPhase = "Preempted" <;>
        by_cases hcurrent : currentPhase = "Ready" <;>
          simp_all

def placementPhases : List String := ["Pending", "Warming", "Ready", "Draining", "Rescheduling"]

theorem placementPhaseFor_mem (currentPhase : String) (nodeReady preemptionNotice : Bool) :
    placementPhaseFor currentPhase nodeReady preemptionNotice ∈ placementPhases := by
  unfold placementPhaseFor
  repeat' split
  all_goals simp [placementPhases]

theorem placementPhaseFor_ready_iff (currentPhase : String) (nodeReady preemptionNotice : Bool) :
    placementPhaseFor currentPhase nodeReady preemptionNotice = "Ready" ↔
      preemptionNotice = false ∧ currentPhase ≠ "Draining" ∧ currentPhase ≠ "Preempted" ∧
        nodeReady = true := by
  constructor
  · exact placementPhaseFor_ready
  · rintro ⟨rfl, hdraining, hpreempted, rfl⟩
    simp [placementPhaseFor, hdraining, hpreempted]

theorem placementPhaseFor_draining_iff (currentPhase : String)
    (nodeReady preemptionNotice : Bool) :
    placementPhaseFor currentPhase nodeReady preemptionNotice = "Draining" ↔
      preemptionNotice = true := by
  unfold placementPhaseFor
  cases preemptionNotice with
  | true => simp
  | false =>
      simp only [Bool.false_eq_true, if_false, iff_false]
      repeat' split
      all_goals decide

theorem placementPhaseFor_settles (currentPhase : String) (nodeReady : Bool) :
    let advance := fun phase => placementPhaseFor phase nodeReady false
    advance (advance (advance (advance currentPhase))) =
      advance (advance (advance currentPhase)) := by
  have hstep : ∀ phase, placementPhaseFor phase nodeReady false =
      if phase = "Draining" ∨ phase = "Preempted" then "Rescheduling"
      else if nodeReady then "Ready"
      else if phase = "Ready" then "Warming" else "Pending" := fun _ => rfl
  cases nodeReady <;>
    by_cases hdraining : currentPhase = "Draining" ∨ currentPhase = "Preempted" <;>
      by_cases hready : currentPhase = "Ready" <;>
        simp [hstep, hdraining, hready]

/-! ## Fleet phase -/

def fleetPhaseFor (desired ready : Int32) (drainAndHold : Bool) : String :=
  if drainAndHold then "Degraded"
  else if ready ≥ desired then "Ready"
  else "Placing"

end VllmColdstartOperator
