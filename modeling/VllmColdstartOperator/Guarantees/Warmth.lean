import VllmColdstartOperator.Guarantees.Batch
import VllmColdstartOperator.Guarantees.ListOrder
import VllmColdstartOperator.Guarantees.Selection

/-!
# The warmth a candidate is ranked with

Warmth is ordered Cold, Warming, Warm.  A candidate is ranked with the greatest
of what its NodeState reports and what the services of the fleet's model lend to
the node, the fleet's own children apart.
-/

namespace VllmColdstartOperator

open Foundation Std

/-! ## The order on warmth -/

instance : LinearOrder Warmth := LinearOrder.lift' warmthRank fun _ _ => warmthRank_injective

instance : OrderBot Warmth where
  bot := .cold
  bot_le warmth := Nat.zero_le (warmthRank warmth)

theorem bot_eq_cold : (⊥ : Warmth) = .cold := rfl

theorem warmer_eq_max (left right : Warmth) : warmer left right = max left right := by
  cases left <;> cases right <;> rfl

/-! ## Reported warmth -/

/-- What the first NodeState of the node with a status reports, in the order the
candidates are built in. -/
def Snapshot.reportedWarmth (snapshot : Snapshot) (node : String) : Warmth :=
  ((snapshot.states.insertionSort fun left right => (cmpNodeState left right).isLE).findSome?
    fun state => if state.name = node then state.status.map NodeStateStatus.warmth
      else none).getD .cold

theorem candidatesByNode_warmth (states : List NodeState) (clock : Clock) (node : String) :
    ((candidatesByNode states clock)[node]?).map NodeCandidate.warmth =
      (states.insertionSort fun left right => (cmpNodeState left right).isLE).findSome?
        fun state => if state.name = node then state.status.map NodeStateStatus.warmth
          else none := by
  rw [candidatesByNode_findSome, List.map_findSome?]
  congr 1
  funext state
  rw [Function.comp_apply, candidateNamed]
  by_cases hname : state.name = node
  · rw [if_pos hname, if_pos hname]
    cases hstatus : state.status <;> simp [nodeStateToCandidate, hstatus]
  · rw [if_neg hname, if_neg hname, Option.map_none]

theorem Snapshot.poolCandidate_warmth {snapshot : Snapshot} {selector : BTreeMap String String}
    (hnodes : ∀ nodes, snapshot.nodes = some nodes → (nodes.map Node.name).Nodup)
    {candidate : NodeCandidate} (hmem : candidate ∈ snapshot.poolCandidates selector) :
    candidate.warmth = snapshot.reportedWarmth candidate.name := by
  rw [reportedWarmth, ← candidatesByNode_warmth snapshot.states snapshot.clock]
  conv_lhs => rw [poolCandidate_eq hnodes hmem]
  cases (candidatesByNode snapshot.states snapshot.clock)[candidate.name]? <;> rfl

theorem Snapshot.reportedWarmth_of_unique {snapshot : Snapshot} {state : NodeState}
    (hmem : state ∈ snapshot.states)
    (hunique : ∀ other ∈ snapshot.states, other.name = state.name → other = state) :
    snapshot.reportedWarmth state.name =
      (state.status.map NodeStateStatus.warmth).getD .cold := by
  rw [reportedWarmth]
  cases hfound : (snapshot.states.insertionSort fun left right =>
      (cmpNodeState left right).isLE).findSome? fun other =>
        if other.name = state.name then other.status.map NodeStateStatus.warmth else none with
  | some warmth =>
      obtain ⟨other, hother, hwarmth⟩ := List.exists_of_findSome?_eq_some hfound
      split at hwarmth
      next hname =>
        rw [hunique other (List.mem_insertionSort _ |>.mp hother) hname] at hwarmth
        rw [hwarmth]
      next => cases hwarmth
  | none =>
      have hnone := List.findSome?_eq_none_iff.mp hfound state
        (List.mem_insertionSort _ |>.mpr hmem)
      rw [if_pos rfl] at hnone
      rw [hnone]

theorem Snapshot.reportedWarmth_of_absent {snapshot : Snapshot} {node : String}
    (habsent : ∀ state ∈ snapshot.states, state.name ≠ node) :
    snapshot.reportedWarmth node = .cold := by
  rw [reportedWarmth, List.findSome?_eq_none_iff.mpr]
  · rfl
  · intro state hmem
    rw [if_neg (habsent state (List.mem_insertionSort _ |>.mp hmem))]

/-! ## Derived warmth -/

def lentWarmth (warmthInstance : WarmthInstance) : String × Warmth :=
  (warmthInstance.1, instanceWarmth warmthInstance.2.1)

theorem deriveWarmth_eq_joinAll (instances : List WarmthInstance) :
    deriveWarmth instances =
      BTreeMap.joinAll ((instances.filter fun warmthInstance => !warmthInstance.2.2).map
        lentWarmth) := by
  rw [deriveWarmth, BTreeMap.joinAll, List.foldl_map, List.foldl_filter]
  congr 1
  funext byNode warmthInstance
  obtain ⟨node, phase, own⟩ := warmthInstance
  cases own with
  | true => rfl
  | false =>
      simp only [Bool.false_eq_true, if_false, Bool.not_false, if_true]
      rw [BTreeMap.joinAt, lentWarmth, bot_eq_cold, warmer_eq_max]

theorem foldOwnLoad_warmth (ownCounts : BTreeMap String Int32)
    (derivedWarmth : BTreeMap String Warmth) (candidate : NodeCandidate) :
    (foldOwnLoad ownCounts derivedWarmth candidate).warmth =
      max candidate.warmth ((derivedWarmth[candidate.name]?).getD ⊥) := by
  rw [foldOwnLoad]
  cases derivedWarmth[candidate.name]? with
  | some warmth => exact warmer_eq_max _ _
  | none => exact (max_bot_right _).symm

/-- A service of the fleet's model that is not one of its own children. -/
def FleetService.isServedBy (fleet : FleetService) (service : VllmService) : Prop :=
  service.spec.model = fleet.spec.model ∧ fleet.metadata.owns service = false

def FleetService.warmthOn (fleet : FleetService) (services : List VllmService) (node : String) :
    Set Warmth :=
  {warmth | ∃ service ∈ services, fleet.isServedBy service ∧
    service.spec.nodeName = some node ∧
    instanceWarmth (service.status.map VllmServiceStatus.phase) = warmth}

theorem warmthInstance_eq_some {fleet : FleetService} {service : VllmService}
    {lent : WarmthInstance} :
    warmthInstance fleet service = some lent ↔
      service.spec.model = fleet.spec.model ∧ service.spec.nodeName = some lent.1 ∧
        service.status.map VllmServiceStatus.phase = lent.2.1 ∧
        fleet.metadata.owns service = lent.2.2 := by
  obtain ⟨node, phase, own⟩ := lent
  rw [warmthInstance]
  by_cases hmodel : service.spec.model = fleet.spec.model
  · cases hnode : service.spec.nodeName with
    | none => simp [hmodel]
    | some held =>
        simp only [hmodel, ne_eq, not_true_eq_false, if_false, true_and, Option.bind_eq_bind,
          Option.bind_some, Option.some.injEq, Prod.mk.injEq]
        rfl
  · simp [hmodel]

theorem mem_lent_iff (fleet : FleetService) (services : List VllmService) (node : String)
    (warmth : Warmth) :
    (node, warmth) ∈ ((services.filterMap (warmthInstance fleet)).filter
        fun lent => !lent.2.2).map lentWarmth ↔
      warmth ∈ fleet.warmthOn services node := by
  simp only [List.mem_map, List.mem_filter, List.mem_filterMap, Bool.not_eq_true',
    lentWarmth, Prod.mk.injEq, FleetService.warmthOn, FleetService.isServedBy, Set.mem_ofPred_eq,
    warmthInstance_eq_some]
  constructor
  · rintro ⟨lent, ⟨⟨service, hmem, hmodel, hnode, hphase, howns⟩, hown⟩, rfl, hwarmth⟩
    exact ⟨service, hmem, ⟨hmodel, howns.trans hown⟩, hnode, by rw [hphase, hwarmth]⟩
  · rintro ⟨service, hmem, ⟨hmodel, howns⟩, hnode, hwarmth⟩
    exact ⟨(node, service.status.map VllmServiceStatus.phase, false),
      ⟨⟨service, hmem, hmodel, hnode, rfl, howns⟩, rfl⟩, rfl, hwarmth⟩

namespace ReconcileInput

variable {input : ReconcileInput} {services : List VllmService}

theorem isGreatest_derivedWarmth (hread : input.snapshot.allServices = some services)
    (node : String) :
    IsGreatest (insert ⊥ (input.fleet.warmthOn services node))
      ((input.derivedWarmth[node]?).getD ⊥) := by
  have hgreatest := BTreeMap.isGreatest_joinAll
    (((services.filterMap (warmthInstance input.fleet)).filter fun lent => !lent.2.2).map
      lentWarmth) node
  simp only [mem_lent_iff, Set.ofPred_mem_eq] at hgreatest
  rw [derivedWarmth, hread]
  dsimp only
  rw [deriveWarmth_eq_joinAll]
  exact hgreatest

/-- The greatest of what the node reports and what the services lend it. -/
theorem candidate_warmth_isGreatest
    (hnodes : ∀ nodes, input.snapshot.nodes = some nodes → (nodes.map Node.name).Nodup)
    (hread : input.snapshot.allServices = some services) {candidate : NodeCandidate}
    (hmem : candidate ∈ input.candidates) :
    IsGreatest (insert (input.snapshot.reportedWarmth candidate.name)
      (input.fleet.warmthOn services candidate.name)) candidate.warmth := by
  obtain ⟨pooled, hpooled, rfl⟩ := List.mem_map.mp hmem
  have hgreatest := isGreatest_derivedWarmth hread pooled.name
  rw [foldOwnLoad_warmth]
  change IsGreatest (insert (input.snapshot.reportedWarmth pooled.name)
    (input.fleet.warmthOn services pooled.name)) _
  rw [← Snapshot.poolCandidate_warmth hnodes hpooled]
  obtain ⟨hin, hupper⟩ := hgreatest
  constructor
  · rcases max_choice pooled.warmth ((input.derivedWarmth[pooled.name]?).getD ⊥) with hmax | hmax
    · exact .inl hmax
    · rcases hin with hbottom | hlent
      · rw [hbottom]
        exact .inl (max_bot_right _)
      · rw [hmax]
        exact .inr hlent
  · rintro warmth (rfl | hlent)
    · exact le_max_left _ _
    · exact (hupper (.inr hlent)).trans (le_max_right _ _)

theorem candidates_warmth_congr {others : List VllmService} {other : ReconcileInput}
    (hread : input.snapshot.allServices = some services)
    (hfleet : other.fleet = input.fleet)
    (hsnapshot : other.snapshot = { input.snapshot with allServices := some others })
    (hserved : ∀ service, input.fleet.isServedBy service →
      (service ∈ others ↔ service ∈ services)) :
    other.candidates.map (fun candidate => (candidate.name, candidate.warmth)) =
      input.candidates.map fun candidate => (candidate.name, candidate.warmth) := by
  have hpool : other.poolCandidates = input.poolCandidates := by
    rw [poolCandidates, hfleet, hsnapshot]
    rfl
  rw [candidates, candidates, hpool, List.map_map, List.map_map]
  refine List.map_congr_left fun candidate _ => ?_
  have hwarmthOn : input.fleet.warmthOn others candidate.name =
      input.fleet.warmthOn services candidate.name := by
    ext warmth
    exact exists_congr fun service => and_congr_left fun hrest => hserved service hrest.1
  have hothers := @isGreatest_derivedWarmth other others (by rw [hsnapshot]) candidate.name
  rw [hfleet, hwarmthOn] at hothers
  have hsame := hothers.unique (isGreatest_derivedWarmth hread candidate.name)
  rw [Function.comp_apply, Function.comp_apply, foldOwnLoad_warmth, foldOwnLoad_warmth, hsame]
  rfl

end ReconcileInput

/-- A candidate is ranked with the greatest of what its NodeState reports and what
the services of the fleet's model that are not its own children lend to its node.
Another list with the same such services, in any order and whatever else it holds,
leaves every warmth as it is. -/
theorem ranked_warmth_isGreatest (input : ReconcileInput) (services : List VllmService)
    (hnodes : ∀ nodes, input.snapshot.nodes = some nodes → (nodes.map Node.name).Nodup)
    (hread : input.snapshot.allServices = some services) :
    (∀ candidate ∈ input.candidates,
      IsGreatest (insert (input.snapshot.reportedWarmth candidate.name)
        (input.fleet.warmthOn services candidate.name)) candidate.warmth ∧
      input.snapshot.reportedWarmth candidate.name ≤ candidate.warmth) ∧
    (∀ state ∈ input.snapshot.states,
      (∀ other ∈ input.snapshot.states, other.name = state.name → other = state) →
      input.snapshot.reportedWarmth state.name =
        (state.status.map NodeStateStatus.warmth).getD .cold) ∧
    (∀ node, (∀ state ∈ input.snapshot.states, state.name ≠ node) →
      input.snapshot.reportedWarmth node = .cold) ∧
    ∀ (others : List VllmService) (other : ReconcileInput), other.fleet = input.fleet →
      other.snapshot = { input.snapshot with allServices := some others } →
      (∀ service, input.fleet.isServedBy service → (service ∈ others ↔ service ∈ services)) →
      other.candidates.map (fun candidate => (candidate.name, candidate.warmth)) =
        input.candidates.map fun candidate => (candidate.name, candidate.warmth) := by
  refine ⟨fun candidate hmem => ?_, fun state hmem hunique => ?_, fun node habsent => ?_,
    fun others other hfleet hsnapshot hserved => ?_⟩
  · have hgreatest := ReconcileInput.candidate_warmth_isGreatest hnodes hread hmem
    exact ⟨hgreatest, hgreatest.2 (Set.mem_insert _ _)⟩
  · exact Snapshot.reportedWarmth_of_unique hmem hunique
  · exact Snapshot.reportedWarmth_of_absent habsent
  · exact ReconcileInput.candidates_warmth_congr hread hfleet hsnapshot hserved

namespace Sample

/-- A Ready service of the fleet's model that belongs to no fleet. -/
def neighbour : VllmService :=
  { childOn "n" with
    metadata := { (childOn "n").metadata with labels := none }
    status := some ⟨"Ready", ""⟩ }

def besideNeighbour : ReconcileInput where
  fleet := fleetOfOne
  snapshot := { snapshot ["n"] [] with allServices := some [neighbour] }
  existing := []

theorem ranked_warmth_isGreatest_sample :
    ∃ candidate ∈ besideNeighbour.candidates, candidate.name = "n" ∧ candidate.warmth = .warm := by
  have hnodes : ∀ nodes, besideNeighbour.snapshot.nodes = some nodes →
      (nodes.map Node.name).Nodup := by
    intro nodes hread
    cases hread
    exact List.nodup_nil
  obtain ⟨hgreatest, -⟩ := ranked_warmth_isGreatest besideNeighbour [neighbour] hnodes rfl
  have hlisted : "n" ∈ besideNeighbour.candidates.map NodeCandidate.name := by
    decide +kernel
  obtain ⟨candidate, hmem, hname⟩ := List.mem_map.mp hlisted
  have hlent : Warmth.warm ∈ besideNeighbour.fleet.warmthOn [neighbour] candidate.name := by
    rw [hname]
    refine ⟨neighbour, List.mem_singleton.mpr rfl, ⟨rfl, ?_⟩, rfl, rfl⟩
    simp [ObjectMeta.owns, neighbour, ObjectMeta.label]
  have hle := (hgreatest candidate hmem).1.2 (Set.mem_insert_of_mem _ hlent)
  refine ⟨candidate, hmem, hname, ?_⟩
  cases hwarmth : candidate.warmth with
  | warm => rfl
  | warming => exact absurd (hwarmth ▸ hle) (by decide)
  | cold => exact absurd (hwarmth ▸ hle) (by decide)

end Sample

end VllmColdstartOperator
