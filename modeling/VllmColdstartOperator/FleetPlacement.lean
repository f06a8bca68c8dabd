import VllmColdstartOperator.Foundation.Comparator
import VllmColdstartOperator.FleetTypes

/-!
# Ranking the candidates of a placement

The pure filters and comparators of `fleet_placement.rs`.  Every strategy
ranks first the node that holds fewer of the fleet's own replicas; both
comparators are total preorders, so the node chosen is a maximum and in
particular has the fewest own replicas.
-/

namespace VllmColdstartOperator

open Foundation Std

structure NodeCandidate where
  name : String
  ownReplicas : Int32
  warmth : Warmth
  gpuUtilization : Option F32
  activeServiceCount : Option Int32
  kvCacheHitRate : Option F32
  kvCacheHitRateAgeSecs : Option Int
  tokensPerJoule : Option F32
  tokensPerJouleAgeSecs : Option Int
  deriving DecidableEq, Repr

/-! ## Filters -/

/-- An unreadable capacity keeps the node. -/
def hasCapacityFor (allocatableGpus : Option Int) (requestedGpus : Int32) : Bool :=
  if requestedGpus ≤ 0 then true
  else match allocatableGpus with
    | none => true
    | some allocatable => allocatable ≥ requestedGpus.toInt

/-- An unreadable node is admitted by the empty selector only. -/
def matchesNodePool (nodeLabels : Option (BTreeMap String String))
    (selector : BTreeMap String String) : Bool :=
  if selector.isEmpty then true
  else match nodeLabels with
    | none => false
    | some labels =>
        selector.toList.all fun (key, value) => labels[key]? == some value

/-! ## Signals -/

def withinHorizon (ageSecs horizonSecs : Option Int) : Bool :=
  match horizonSecs, ageSecs with
  | none, _ => true
  | some _, none => false
  | some horizon, some age => 0 ≤ age ∧ age ≤ horizon

def validHitRate (value : Option F32) : Option F32 :=
  value.filter fun rate => rate.isFinite && rate.atLeastZero && rate.atMostOne

def validTokensPerJoule (value : Option F32) : Option F32 :=
  value.filter fun tokens => tokens.isFinite && tokens.atLeastZero

def validGpuUtilization (value : Option F32) : Option F32 :=
  value.filter fun utilization => utilization.isFinite && utilization.atLeastZero

def freshHitRate (candidate : NodeCandidate) (horizonSecs : Option Int) : Option F32 :=
  (validHitRate candidate.kvCacheHitRate).filter fun _ =>
    withinHorizon candidate.kvCacheHitRateAgeSecs horizonSecs

def freshTokensPerJoule (candidate : NodeCandidate) (horizonSecs : Option Int) :
    Option F32 :=
  (validTokensPerJoule candidate.tokensPerJoule).filter fun _ =>
    withinHorizon candidate.tokensPerJouleAgeSecs horizonSecs

/-! ## Warmth -/

def warmthRank : Warmth → Nat
  | .warm => 2
  | .warming => 1
  | .cold => 0

def warmer (left right : Warmth) : Warmth :=
  if warmthRank right > warmthRank left then right else left

/-- One service of the fleet's model: its node, its phase, and whether it is
one of the fleet's own children. -/
abbrev WarmthInstance := String × Option String × Bool

def instanceWarmth : Option String → Warmth
  | some phase =>
      if phase = "Ready" then .warm
      else if phase = "Warming" then .warming
      else .cold
  | none => .cold

def deriveWarmth (instances : List WarmthInstance) : BTreeMap String Warmth :=
  instances.foldl (fun byNode (node, phase, own) =>
    if own then byNode
    else byNode.insert node (warmer (byNode[node]?.getD .cold) (instanceWarmth phase))) ∅

/-! ## Comparators -/

def cmpSignal : Option F32 → Option F32 → Ordering :=
  presentAbove F32.totalCmp

def cmpSignalLower : Option F32 → Option F32 → Ordering :=
  presentAbove fun left right => F32.totalCmp right left

def cmpCountLower : Option Int32 → Option Int32 → Ordering :=
  presentAbove fun left right => compare right left

instance cmpSignal_trans : TransCmp cmpSignal :=
  inferInstanceAs (TransCmp (presentAbove F32.totalCmp))

instance cmpSignalLower_trans : TransCmp cmpSignalLower :=
  haveI : TransCmp fun left right : F32 => F32.totalCmp right left := TransCmp.opposite
  inferInstanceAs (TransCmp (presentAbove fun left right => F32.totalCmp right left))

instance cmpCountLower_trans : TransCmp cmpCountLower :=
  haveI : TransCmp fun left right : Int32 => compare right left := TransCmp.opposite
  inferInstanceAs (TransCmp (presentAbove fun left right : Int32 => compare right left))

def cmpOwnReplicas (left right : NodeCandidate) : Ordering :=
  compare right.ownReplicas left.ownReplicas

def cmpWarmth (left right : NodeCandidate) : Ordering :=
  compare (warmthRank left.warmth) (warmthRank right.warmth)

def cmpActiveServiceCount (left right : NodeCandidate) : Ordering :=
  cmpCountLower left.activeServiceCount right.activeServiceCount

def cmpGpuUtilization (left right : NodeCandidate) : Ordering :=
  cmpSignalLower (validGpuUtilization left.gpuUtilization)
    (validGpuUtilization right.gpuUtilization)

def cmpTokensPerJoule (horizonSecs : Option Int) (left right : NodeCandidate) : Ordering :=
  cmpSignal (freshTokensPerJoule left horizonSecs) (freshTokensPerJoule right horizonSecs)

def cmpHitRate (horizonSecs : Option Int) (left right : NodeCandidate) : Ordering :=
  cmpSignal (freshHitRate left horizonSecs) (freshHitRate right horizonSecs)

def cmpWarmthFirst (left right : NodeCandidate) : Ordering :=
  (cmpOwnReplicas left right).then <|
    (cmpWarmth left right).then <|
      (cmpActiveServiceCount left right).then <|
        cmpGpuUtilization left right

def cmpEfficiencyAware (horizonSecs : Option Int) (left right : NodeCandidate) : Ordering :=
  (cmpOwnReplicas left right).then <|
    (cmpWarmth left right).then <|
      (cmpTokensPerJoule horizonSecs left right).then <|
        (cmpHitRate horizonSecs left right).then <|
          (cmpGpuUtilization left right).then <|
            cmpActiveServiceCount left right

instance cmpOwnReplicas_trans : TransCmp cmpOwnReplicas :=
  haveI : TransCmp fun left right : Int32 => compare right left := TransCmp.opposite
  trans_on (fun left right : Int32 => compare right left) NodeCandidate.ownReplicas

instance cmpWarmth_trans : TransCmp cmpWarmth :=
  trans_on compare fun candidate : NodeCandidate => warmthRank candidate.warmth

instance cmpActiveServiceCount_trans : TransCmp cmpActiveServiceCount :=
  trans_on cmpCountLower NodeCandidate.activeServiceCount

instance cmpGpuUtilization_trans : TransCmp cmpGpuUtilization :=
  trans_on cmpSignalLower fun candidate : NodeCandidate =>
    validGpuUtilization candidate.gpuUtilization

instance cmpTokensPerJoule_trans (horizonSecs : Option Int) :
    TransCmp (cmpTokensPerJoule horizonSecs) :=
  trans_on cmpSignal fun candidate => freshTokensPerJoule candidate horizonSecs

instance cmpHitRate_trans (horizonSecs : Option Int) : TransCmp (cmpHitRate horizonSecs) :=
  trans_on cmpSignal fun candidate => freshHitRate candidate horizonSecs

instance cmpWarmthFirst_trans : TransCmp cmpWarmthFirst :=
  inferInstanceAs (TransCmp (compareLex cmpOwnReplicas (compareLex cmpWarmth
    (compareLex cmpActiveServiceCount cmpGpuUtilization))))

instance cmpEfficiencyAware_trans (horizonSecs : Option Int) :
    TransCmp (cmpEfficiencyAware horizonSecs) :=
  inferInstanceAs (TransCmp (compareLex cmpOwnReplicas (compareLex cmpWarmth
    (compareLex (cmpTokensPerJoule horizonSecs) (compareLex (cmpHitRate horizonSecs)
      (compareLex cmpGpuUtilization cmpActiveServiceCount))))))

/-- The tuple documented as what the efficiency-aware comparator decides on. -/
def comparisonKey (candidate : NodeCandidate) :
    Nat × Option F32 × Option F32 × Option F32 × Option Int32 :=
  (warmthRank candidate.warmth, validHitRate candidate.kvCacheHitRate,
    validTokensPerJoule candidate.tokensPerJoule,
    validGpuUtilization candidate.gpuUtilization, candidate.activeServiceCount)

def signalEq : Option F32 → Option F32 → Bool
  | none, none => true
  | some left, some right => left.numEq right
  | _, _ => false

def keyEq (left right : Nat × Option F32 × Option F32 × Option F32 × Option Int32) : Bool :=
  left.1 == right.1 && signalEq left.2.1 right.2.1 && signalEq left.2.2.1 right.2.2.1 &&
    signalEq left.2.2.2.1 right.2.2.2.1 && left.2.2.2.2 == right.2.2.2.2

/-! ## Selection -/

def selectNodeForPlacement (candidates : List NodeCandidate) : Option NodeCandidate :=
  maxBy cmpWarmthFirst candidates

def selectNodeEfficiencyAware (candidates : List NodeCandidate)
    (horizonSecs : Option Int) : Option NodeCandidate :=
  maxBy (cmpEfficiencyAware horizonSecs) candidates

def selectNodeWithStrategy (candidates : List NodeCandidate)
    (strategy : PlacementStrategy) (horizonSecs : Option Int) : Option NodeCandidate :=
  match strategy with
  | .efficiencyAware => selectNodeEfficiencyAware candidates horizonSecs
  | .warmthFirst => selectNodeForPlacement candidates
  | .unsupported => none

def selectReplacementNode (candidates : List NodeCandidate) (preemptedNode : String)
    (strategy : PlacementStrategy) (horizonSecs : Option Int) : Option String :=
  let survivors := candidates.filter fun candidate => candidate.name ≠ preemptedNode
  (selectNodeWithStrategy survivors strategy horizonSecs).map NodeCandidate.name

variable {candidates : List NodeCandidate} {strategy : PlacementStrategy}
  {horizonSecs : Option Int}

theorem selectNodeWithStrategy_mem {best : NodeCandidate}
    (hbest : selectNodeWithStrategy candidates strategy horizonSecs = some best) :
    best ∈ candidates := by
  cases strategy with
  | warmthFirst => exact maxBy_mem _ hbest
  | efficiencyAware => exact maxBy_mem _ hbest
  | unsupported => simp [selectNodeWithStrategy] at hbest

theorem selectNodeWithStrategy_isSome (hsupported : strategy.isSupported = true)
    (hne : candidates ≠ []) :
    ∃ best, selectNodeWithStrategy candidates strategy horizonSecs = some best := by
  cases strategy with
  | warmthFirst => exact maxBy_isSome _ hne
  | efficiencyAware => exact maxBy_isSome _ hne
  | unsupported => simp [PlacementStrategy.isSupported] at hsupported

@[simp] theorem selectNodeWithStrategy_nil :
    selectNodeWithStrategy [] strategy horizonSecs = none := by
  cases strategy <;> rfl

private theorem ownReplicas_le_of_then {left right : NodeCandidate} {rest : Ordering}
    (hle : ((cmpOwnReplicas left right).then rest).isLE) :
    right.ownReplicas.toInt ≤ left.ownReplicas.toInt := by
  have hown : (cmpOwnReplicas left right).isLE := by
    rcases Ordering.isLE_then_iff_or.mp hle with hlt | ⟨heq, -⟩
    · simp [hlt]
    · simp [heq]
  exact Int32.le_iff_toInt_le.mp (isLE_compare.mp hown)

theorem selectNodeWithStrategy_ownReplicas_le {best : NodeCandidate}
    (hbest : selectNodeWithStrategy candidates strategy horizonSecs = some best)
    {other : NodeCandidate} (hother : other ∈ candidates) :
    best.ownReplicas.toInt ≤ other.ownReplicas.toInt := by
  cases strategy with
  | warmthFirst => exact ownReplicas_le_of_then (maxBy_isMax _ hbest other hother)
  | efficiencyAware => exact ownReplicas_le_of_then (maxBy_isMax _ hbest other hother)
  | unsupported => simp [selectNodeWithStrategy] at hbest

theorem selectNodeWithStrategy_filter {best : NodeCandidate} (keep : NodeCandidate → Bool)
    (hbest : selectNodeWithStrategy candidates strategy horizonSecs = some best)
    (hkeep : keep best = true) :
    selectNodeWithStrategy (candidates.filter keep) strategy horizonSecs = some best := by
  cases strategy with
  | warmthFirst => exact maxBy_filter _ keep hbest hkeep
  | efficiencyAware => exact maxBy_filter _ keep hbest hkeep
  | unsupported => simp [selectNodeWithStrategy] at hbest

/-- Candidates that hold more of the fleet's own replicas than the chosen one may be
added. -/
theorem selectNodeWithStrategy_of_filter {best : NodeCandidate} (keep : NodeCandidate → Bool)
    (hbest : selectNodeWithStrategy (candidates.filter keep) strategy horizonSecs = some best)
    (hmore : ∀ other ∈ candidates, keep other = false →
      best.ownReplicas.toInt < other.ownReplicas.toInt) :
    selectNodeWithStrategy candidates strategy horizonSecs = some best := by
  have hown : ∀ other ∈ candidates, keep other = false → cmpOwnReplicas best other = .gt := by
    intro other hother hdropped
    have hlt := Int32.lt_iff_toInt_lt.mpr (hmore other hother hdropped)
    exact Std.compare_eq_gt.mpr hlt
  cases strategy with
  | warmthFirst =>
      refine maxBy_of_filter _ keep hbest fun other hother hdropped => ?_
      rw [cmpWarmthFirst, hown other hother hdropped]
      rfl
  | efficiencyAware =>
      refine maxBy_of_filter _ keep hbest fun other hother hdropped => ?_
      rw [cmpEfficiencyAware, hown other hother hdropped]
      rfl
  | unsupported => cases hbest

theorem selectReplacementNode_of_absent {preemptedNode : String}
    (habsent : ∀ candidate ∈ candidates, candidate.name ≠ preemptedNode) :
    selectReplacementNode candidates preemptedNode strategy horizonSecs =
      (selectNodeWithStrategy candidates strategy horizonSecs).map NodeCandidate.name := by
  have hsurvivors : candidates.filter (fun candidate => candidate.name ≠ preemptedNode) =
      candidates := by
    rw [List.filter_eq_self]
    intro candidate hmem
    simpa using habsent candidate hmem
  rw [selectReplacementNode, hsurvivors]

end VllmColdstartOperator
