import VllmColdstartOperator.FleetController.Positions
import VllmColdstartOperator.Guarantees.Provenance

/-!
# The nodes a fleet does not use

A reconcile reads every NodeState and Node of the cluster.  Those of a node it
pins nothing to, and on which the fleet has no child and no placement, decide
nothing: without them it makes the same calls, so a run goes as it would have
gone without the nodes no child of the fleet ever goes to.
-/

namespace VllmColdstartOperator

open Foundation Std

/-! ## Planning among fewer nodes -/

section Planning

variable {strategy : PlacementStrategy} {horizonSecs : Option Int} (keep : String → Bool)

def keptCandidates (candidates : List NodeCandidate) : List NodeCandidate :=
  candidates.filter fun candidate => keep candidate.name

@[simp] theorem keptCandidates_cons (candidate : NodeCandidate)
    (candidates : List NodeCandidate) :
    keptCandidates keep (candidate :: candidates) =
      if keep candidate.name then candidate :: keptCandidates keep candidates
      else keptCandidates keep candidates :=
  List.filter_cons

theorem keptCandidates_simulatePlacement {name : String} (hkeep : keep name = true)
    (working : List NodeCandidate) :
    simulatePlacement name (keptCandidates keep working) =
      keptCandidates keep (simulatePlacement name working) := by
  induction working with
  | nil => rfl
  | cons candidate rest ih =>
      rw [keptCandidates_cons, simulatePlacement]
      by_cases hname : candidate.name = name
      · rw [if_pos hname, if_pos (hname ▸ hkeep), simulatePlacement, if_pos hname,
          keptCandidates_cons, if_pos (hname ▸ hkeep)]
      · rw [if_neg hname, keptCandidates_cons]
        split
        · rw [simulatePlacement, if_neg hname, ih]
        · exact ih

theorem selectNodeWithStrategy_kept_none {candidates : List NodeCandidate}
    (hnone : selectNodeWithStrategy candidates strategy horizonSecs = none) :
    selectNodeWithStrategy (keptCandidates keep candidates) strategy horizonSecs = none := by
  cases hsupported : strategy.isSupported with
  | false =>
      cases strategy with
      | warmthFirst => cases hsupported
      | efficiencyAware => cases hsupported
      | unsupported => rfl
  | true =>
      have hempty : candidates = [] := by
        by_contra hne
        obtain ⟨best, hbest⟩ : ∃ best,
            selectNodeWithStrategy candidates strategy horizonSecs = some best :=
          selectNodeWithStrategy_isSome hsupported hne
        rw [hnone] at hbest
        cases hbest
      rw [hempty]
      exact selectNodeWithStrategy_nil

/-- A plan whose picks are all kept is the plan among the kept candidates. -/
theorem planPicks_kept {slots : Nat} {working : List NodeCandidate}
    (hpicks : ∀ name ∈ planPicks strategy horizonSecs slots working, keep name = true) :
    planPicks strategy horizonSecs slots (keptCandidates keep working) =
      planPicks strategy horizonSecs slots working := by
  induction slots generalizing working with
  | zero => rfl
  | succ slots ih =>
      rw [planPicks] at hpicks
      rw [planPicks, planPicks]
      cases hbest : selectNodeWithStrategy working strategy horizonSecs with
      | none => rw [selectNodeWithStrategy_kept_none keep hbest]
      | some best =>
          rw [hbest] at hpicks
          have hkeep : keep best.name = true := hpicks _ List.mem_cons_self
          have hsame : selectNodeWithStrategy (keptCandidates keep working) strategy horizonSecs =
              some best :=
            selectNodeWithStrategy_filter _ hbest hkeep
          rw [hsame]
          dsimp only
          rw [keptCandidates_simulatePlacement keep hkeep,
            ih fun name hname => hpicks name (List.mem_cons_of_mem _ hname)]

end Planning

/-! ## The snapshot without some nodes -/

namespace Snapshot

variable (snapshot : Snapshot) (keep : String → Bool)

def restrict : Snapshot where
  states := snapshot.states.filter fun state => keep state.name
  clock := snapshot.clock
  nodes := snapshot.nodes.map fun nodes => nodes.filter fun node => keep node.name
  allServices := snapshot.allServices

theorem restrict_nodes : (snapshot.restrict keep).nodes.getD [] =
    (snapshot.nodes.getD []).filter fun node => keep node.name := by
  rw [restrict]
  cases snapshot.nodes with
  | none => rfl
  | some nodes => rfl

variable {keep}

theorem mem_cordoned_restrict {name : String} (hkeep : keep name = true) :
    name ∈ (snapshot.restrict keep).cordoned ↔ name ∈ snapshot.cordoned := by
  rw [mem_cordoned, mem_cordoned, restrict_nodes]
  simp only [List.mem_filter]
  constructor
  · rintro ⟨node, ⟨hnode, -⟩, hcordon, hname⟩
    exact ⟨node, hnode, hcordon, hname⟩
  · rintro ⟨node, hnode, hcordon, rfl⟩
    exact ⟨node, ⟨hnode, hkeep⟩, hcordon, rfl⟩

theorem mem_displaced_restrict {name : String} (hkeep : keep name = true) :
    name ∈ (snapshot.restrict keep).displaced ↔ name ∈ snapshot.displaced := by
  rw [mem_displaced, mem_displaced, mem_cordoned_restrict snapshot hkeep, mem_preempted,
    mem_preempted]
  refine or_congr_left ?_
  simp only [restrict, List.mem_filter]
  constructor
  · rintro ⟨state, ⟨hstate, -⟩, hnotice, hname⟩
    exact ⟨state, hstate, hnotice, hname⟩
  · rintro ⟨state, hstate, hnotice, rfl⟩
    exact ⟨state, ⟨hstate, hkeep⟩, hnotice, rfl⟩

theorem candidatesByNode_restrict (name : String) :
    (candidatesByNode (snapshot.restrict keep).states snapshot.clock)[name]? =
      if keep name then (candidatesByNode snapshot.states snapshot.clock)[name]? else none := by
  rw [candidatesByNode_lookup, candidatesByNode_lookup snapshot.states, restrict]
  dsimp only
  rw [List.filter_filter]
  by_cases hkeep : keep name = true
  · rw [if_pos hkeep]
    congr 2
    refine List.filter_congr fun state _ => ?_
    by_cases hname : state.name = name
    · simp [hname, hkeep]
    · simp [hname]
  · have hnone : (snapshot.states.filter fun state =>
        decide (state.name = name) && keep state.name) = [] := by
      rw [List.filter_eq_nil_iff]
      rintro state - hboth
      simp only [Bool.and_eq_true, decide_eq_true_eq] at hboth
      exact hkeep (hboth.1 ▸ hboth.2)
    rw [if_neg hkeep, hnone]
    rfl

theorem candidatesByNode_restrict_eq :
    candidatesByNode (snapshot.restrict keep).states snapshot.clock =
      (candidatesByNode snapshot.states snapshot.clock).filter
        fun _ candidate => keep candidate.name := by
  apply ExtTreeMap.ext_getElem?
  intro name
  rw [candidatesByNode_restrict, BTreeMap.lookup_filter]
  cases hlookup : (candidatesByNode snapshot.states snapshot.clock)[name]? with
  | none => simp
  | some candidate =>
      rw [Option.filter_some, candidatesByNode_filed _ _ name candidate hlookup]

theorem poolCandidates_restrict (selector : BTreeMap String String) :
    (snapshot.restrict keep).poolCandidates selector =
      keptCandidates keep (snapshot.poolCandidates selector) := by
  have hfiled := candidatesByNode_filed snapshot.states snapshot.clock
  have hclock : (snapshot.restrict keep).clock = snapshot.clock := rfl
  unfold poolCandidates
  dsimp only
  rw [hclock]
  by_cases hselector : selector.isEmpty = true
  · have hkept : ((candidatesByNode snapshot.states snapshot.clock).toList.filter
        fun pair => keep pair.2.name).map Prod.snd =
        ((candidatesByNode snapshot.states snapshot.clock).toList.map Prod.snd).filter
          fun candidate => keep candidate.name := by
      rw [List.filter_map]
      rfl
    rw [if_pos hselector, if_pos hselector, candidatesByNode_restrict_eq, ExtTreeMap.toList_filter,
      keptCandidates, List.filter_comm, hkept]
    refine List.filter_congr fun candidate hmem => ?_
    have hkeep : keep candidate.name = true := (List.mem_filter.mp hmem).2
    exact decide_eq_decide.mpr (mem_cordoned_restrict snapshot hkeep).not
  · rw [if_neg hselector, if_neg hselector, selectorCandidates, selectorCandidates,
      keptCandidates, takeCandidates_filter _ hfiled, restrict_nodes,
      List.filter_comm (fun node : Node => matchesNodePool node.metadata.labels selector),
      List.filter_comm (fun node : Node => !node.isUnschedulable)]
    apply takeCandidates_congr
    intro node hnode
    rw [candidatesByNode_restrict, if_pos (List.mem_filter.mp hnode).2]

end Snapshot

/-! ## The reconcile without them -/

theorem Snapshot.allocatable_restrict (snapshot : Snapshot) {keep : String → Bool}
    (gpuRequest : Int32) {name : String} (hkeep : keep name = true) :
    ((snapshot.restrict keep).allocatable gpuRequest)[name]? =
      (snapshot.allocatable gpuRequest)[name]? := by
  unfold Snapshot.allocatable Snapshot.restrict
  cases snapshot.nodes with
  | none => rfl
  | some nodes =>
      dsimp only [Option.map_some]
      split
      · rw [BTreeMap.lookup_collect, BTreeMap.lookup_collect, ← List.map_reverse,
          ← List.map_reverse, List.find?_map, List.find?_map, ← List.filter_reverse,
          List.find?_filter]
        congr 2
        refine List.find?_congr fun node _ => ?_
        by_cases hname : node.name = name
        · simp [hname, hkeep]
        · simp [hname]
      · rfl

theorem isMoveInFlight_congr {left right : BTreeSet String} {placement : PlacementStatus}
    (hsame : placement.nodeRef ∈ left ↔ placement.nodeRef ∈ right) :
    isMoveInFlight left placement = isMoveInFlight right placement := by
  rw [isMoveInFlight, isMoveInFlight, decide_eq_decide, hsame]

namespace ReconcileInput

variable (input : ReconcileInput) (keep : String → Bool)

def restrict : ReconcileInput := { input with snapshot := input.snapshot.restrict keep }

/-- The fleet has its children and placements on kept nodes, and goes to no
other. -/
structure UsesOnly : Prop where
  current : ∀ (index : Nat) (node : String), input.current[index]? = some node → keep node = true
  placed : ∀ placement ∈ input.fleet.placements, keep placement.nodeRef = true
  written : ∀ slot ∈ input.writtenPins, keep slot.2 = true

theorem current_restrict : (input.restrict keep).current = input.current := rfl

theorem poolCandidates_restrict :
    (input.restrict keep).poolCandidates = keptCandidates keep input.poolCandidates :=
  input.snapshot.poolCandidates_restrict _

theorem candidates_restrict :
    (input.restrict keep).candidates = keptCandidates keep input.candidates := by
  rw [candidates, poolCandidates_restrict, candidates, keptCandidates, keptCandidates,
    List.filter_map]
  rfl

theorem healthyCandidates_restrict :
    (input.restrict keep).healthyCandidates = keptCandidates keep input.healthyCandidates := by
  rw [healthyCandidates, candidates_restrict, healthyCandidates, keptCandidates, keptCandidates,
    List.filter_comm (fun candidate : NodeCandidate => keep candidate.name),
    List.filter_comm (fun candidate : NodeCandidate => keep candidate.name), List.filter_filter,
    List.filter_filter, List.filter_filter, List.filter_filter]
  refine List.filter_congr fun candidate _ => ?_
  cases hkeep : keep candidate.name with
  | false => simp
  | true =>
      have hdisplaced : candidate.name ∈ (input.restrict keep).displaced ↔
          candidate.name ∈ input.displaced :=
        input.snapshot.mem_displaced_restrict hkeep
      have hcapacity : ((input.restrict keep).snapshot.allocatable
          (input.restrict keep).gpuRequest)[candidate.name]? =
            (input.snapshot.allocatable input.gpuRequest)[candidate.name]? :=
        input.snapshot.allocatable_restrict _ hkeep
      rw [hcapacity, decide_eq_decide.mpr hdisplaced.not]
      rfl

namespace UsesOnly

variable {input} {keep} (huses : input.UsesOnly keep) (hfull : input.IsFull)

include huses

theorem onDisplaced_restrict (index : Nat) :
    (input.restrict keep).onDisplaced index = input.onDisplaced index := by
  rw [Bool.eq_iff_iff, onDisplaced_iff, onDisplaced_iff, current_restrict]
  refine exists_congr fun node => and_congr_right fun hcurrent => ?_
  exact input.snapshot.mem_displaced_restrict (huses.current index node hcurrent)

theorem budget_restrict : (input.restrict keep).budget = input.budget := by
  have hmoves : (input.restrict keep).inFlightMoves = input.inFlightMoves := by
    refine List.countP_congr fun placement hmem => ?_
    exact Bool.eq_iff_iff.mp (isMoveInFlight_congr (input.snapshot.mem_displaced_restrict
      (huses.placed placement hmem)))
  rw [budget, hmoves]
  rfl

include hfull

theorem slot_kept {index : Nat} {node : String} (hrange : index < input.desired)
    (hpin : input.pin index = some node) : keep node = true := by
  have hslot := (mem_slotNodes index node).mpr ⟨hrange, hpin⟩
  rw [← writtenPins_of_isFull hfull] at hslot
  exact huses.written (index, node) hslot

theorem fresh_kept {name : String} (hmem : name ∈ input.fresh) : keep name = true := by
  obtain ⟨candidate, hhealthy, -⟩ := fresh_mem hmem
  rw [← missing_filterMap_pin hfull.2.1 (List.ne_nil_of_mem hhealthy)] at hmem
  obtain ⟨index, hmissing, hpin⟩ := List.mem_filterMap.mp hmem
  exact huses.slot_kept hfull ((mem_missing index).mp hmissing).1 hpin

theorem fresh_restrict : (input.restrict keep).fresh = input.fresh := by
  have hpicks : ∀ name ∈ planPicks input.strategy input.horizonSecs input.missing.length
      input.healthyCandidates, keep name = true := by
    intro name hname
    rw [← fresh_eq] at hname
    exact huses.fresh_kept hfull hname
  rw [fresh_eq, fresh_eq, healthyCandidates_restrict]
  exact planPicks_kept keep hpicks

theorem moved_restrict {index : Nat} (hrange : index < input.desired) :
    (input.restrict keep).moved[index]? = input.moved[index]? := by
  have hbelow : (input.restrict keep).displacedBelow index = input.displacedBelow index := by
    rw [displacedBelow, displacedBelow]
    simp only [huses.onDisplaced_restrict]
  rw [moved_lookup, moved_lookup]
  by_cases hmoved : index ∈ input.movedSlots
  · obtain ⟨hsome, hdisplaced, hfew⟩ := (mem_movedSlots_iff index).mp hmoved
    obtain ⟨node, htarget⟩ := Option.isSome_iff_exists.mp hsome
    obtain ⟨best, hbest, hname⟩ := Option.map_eq_some_iff.mp htarget
    have hkeep : keep best.name = true := by
      rw [hname]
      exact huses.slot_kept hfull hrange ((pin_of_moved hmoved).trans htarget)
    have hselect : selectNodeWithStrategy (input.restrict keep).healthyCandidates input.strategy
        input.horizonSecs = some best := by
      rw [healthyCandidates_restrict]
      exact selectNodeWithStrategy_filter _ hbest hkeep
    have hsame : (input.restrict keep).target = input.target := by
      rw [htarget, ← hname]
      exact congrArg (Option.map NodeCandidate.name) hselect
    have hmoves : index ∈ (input.restrict keep).movedSlots := by
      rw [mem_movedSlots_iff, hsame, huses.onDisplaced_restrict, hbelow, huses.budget_restrict]
      exact ⟨hsome, hdisplaced, hfew⟩
    rw [if_pos hmoves, if_pos hmoved, hsame]
  · have hstays : index ∉ (input.restrict keep).movedSlots := by
      rw [mem_movedSlots_iff, huses.onDisplaced_restrict, hbelow, huses.budget_restrict]
      rintro ⟨hsome, hdisplaced, hfew⟩
      obtain ⟨node, htarget⟩ := Option.isSome_iff_exists.mp hsome
      obtain ⟨candidate, hmem, -⟩ := target_mem htarget
      rw [healthyCandidates_restrict] at hmem
      have htargets := target_isSome hfull.2.1 (List.ne_nil_of_mem (List.mem_of_mem_filter hmem))
      exact hmoved ((mem_movedSlots_iff index).mpr
        ⟨Option.isSome_iff_exists.mpr htargets, hdisplaced, hfew⟩)
    rw [if_neg hstays, if_neg hmoved]

theorem slotNodes_restrict : (input.restrict keep).slotNodes = input.slotNodes := by
  rw [slotNodes_eq, slotNodes_eq]
  refine List.filterMap_congr fun index hmem => ?_
  have hrange : index < input.desired := List.mem_range.mp hmem
  rw [pin, pin, huses.moved_restrict hfull hrange, huses.fresh_restrict hfull]
  rfl

theorem appliedPlacement_restrict {slot : Nat × String} (hslot : slot ∈ input.slotNodes) :
    (input.restrict keep).appliedPlacement slot = input.appliedPlacement slot := by
  obtain ⟨hrange, hpin⟩ := (mem_slotNodes slot.1 slot.2).mp hslot
  have hkeep := huses.slot_kept hfull hrange hpin
  have hpreempted : slot.1 ∈ (input.restrict keep).preemptedSlots ↔
      slot.1 ∈ input.preemptedSlots := by
    rw [mem_preemptedSlots, mem_preemptedSlots, ← onDisplaced_iff, ← onDisplaced_iff,
      huses.onDisplaced_restrict]
  have hfind : (input.restrict keep).candidates.find? (fun candidate => candidate.name = slot.2) =
      input.candidates.find? fun candidate => candidate.name = slot.2 := by
    rw [candidates_restrict, keptCandidates, List.find?_filter]
    refine List.find?_congr fun candidate _ => ?_
    by_cases hname : candidate.name = slot.2
    · simp [hname, hkeep]
    · simp [hname]
  have hinputs : decisionInputs (input.restrict keep).candidates slot.2 input.strategy
      input.horizonSecs = decisionInputs input.candidates slot.2 input.strategy
        input.horizonSecs := by
    rw [decisionInputs, decisionInputs, hfind]
  rw [appliedPlacement, appliedPlacement]
  simp only [hpreempted]
  rw [show (input.restrict keep).strategy = input.strategy from rfl,
    show (input.restrict keep).horizonSecs = input.horizonSecs from rfl, hinputs]
  rfl

theorem placements_restrict : (input.restrict keep).placements = input.placements := by
  have happlied : (input.restrict keep).slotNodes.map (input.restrict keep).appliedPlacement =
      input.slotNodes.map input.appliedPlacement := by
    rw [huses.slotNodes_restrict hfull]
    exact List.map_congr_left fun slot hslot => huses.appliedPlacement_restrict hfull hslot
  rw [placements, placements, happlied]
  rfl

theorem placements_kept {placement : PlacementStatus} (hmem : placement ∈ input.placements) :
    keep placement.nodeRef = true := by
  rw [placements, List.mem_insertionSort, List.mem_append, List.mem_map, List.mem_map] at hmem
  rcases hmem with ⟨slot, hslot, rfl⟩ | ⟨slot, hslot, rfl⟩
  · obtain ⟨hrange, hpin⟩ := (mem_slotNodes slot.1 slot.2).mp hslot
    exact huses.slot_kept hfull hrange hpin
  · exact huses.current slot.1 slot.2 ((mem_heldSlots slot.1 slot.2).mp hslot).1

theorem fullStatus_restrict : (input.restrict keep).fullStatus = input.fullStatus := by
  have hactive : (input.restrict keep).activeReschedules = input.activeReschedules := by
    rw [activeReschedules, activeReschedules, huses.placements_restrict hfull]
    refine List.countP_congr fun placement hmem => ?_
    exact Bool.eq_iff_iff.mp (isMoveInFlight_congr (input.snapshot.mem_displaced_restrict
      (huses.placements_kept hfull hmem)))
  have hdrain : (input.restrict keep).drainAndHold = input.drainAndHold := by
    rw [drainAndHold, drainAndHold, huses.placements_restrict hfull]
    rw [Bool.eq_iff_iff, List.any_eq_true, List.any_eq_true]
    refine exists_congr fun placement => and_congr_right fun hmem => ?_
    have hsame := input.snapshot.mem_displaced_restrict (huses.placements_kept hfull hmem)
    rw [decide_eq_true_eq, decide_eq_true_eq]
    exact and_congr_right fun _ => hsame
  rw [fullStatus, fullStatus, hactive, hdrain, readyReplicas, warmingReplicas,
    huses.placements_restrict hfull]
  rfl

theorem childCalls_restrict : (input.restrict keep).childCalls = input.childCalls := by
  have happly : (input.restrict keep).applyCall = input.applyCall := rfl
  have hdelete : (input.restrict keep).deleteCall = input.deleteCall := rfl
  have hremoved : (input.restrict keep).removedSlots = input.removedSlots := rfl
  rw [childCalls, childCalls, huses.slotNodes_restrict hfull, happly, hdelete, hremoved]

omit hfull in
/-- Without the nodes it does not use a reconcile makes the same calls. -/
theorem reconcileInner_restrict
    (hpool : input.poolCandidates ≠ [] → (input.restrict keep).poolCandidates ≠ []) :
    reconcileInner (input.restrict keep) = reconcileInner input := by
  by_cases hfull : input.IsFull
  · have hfull' : (input.restrict keep).IsFull := ⟨hfull.1, hfull.2.1, hpool hfull.2.2⟩
    rw [reconcileInner_of_isFull hfull, reconcileInner_of_isFull hfull',
      huses.fullStatus_restrict hfull, huses.childCalls_restrict hfull]
  · cases hns : input.fleet.metadata.ns with
    | none =>
        have hns' : (input.restrict keep).fleet.metadata.ns = none := hns
        rw [reconcileInner, reconcileInner, hns, hns']
    | some ns =>
        have hns' : (input.restrict keep).fleet.metadata.ns = some ns := hns
        cases hsupported : input.strategy.isSupported with
        | false =>
            have hsupported' : (input.restrict keep).strategy.isSupported = false := hsupported
            rw [reconcileInner, reconcileInner, hns, hns', hsupported', hsupported]
            dsimp only
            rw [Bool.not_false, if_pos rfl, if_pos rfl]
            rfl
        | true =>
            have hempty : input.poolCandidates = [] := by
              by_contra hne
              exact hfull ⟨hns ▸ rfl, hsupported, hne⟩
            have hempty' : (input.restrict keep).poolCandidates = [] := by
              rw [poolCandidates_restrict, hempty]
              rfl
            rw [reconcileInner_of_no_candidate input (hns ▸ rfl) hsupported hempty,
              reconcileInner_of_no_candidate (input.restrict keep) (hns' ▸ rfl) hsupported hempty']
            rfl

end UsesOnly

end ReconcileInput

/-! ## Runs -/

def Round.restrict (round : Round) (keep : String → Bool) : Round :=
  { round with snapshot := round.snapshot.restrict keep }

namespace World

variable {world : World} {metadata : ObjectMeta} {round : Round} {keep : String → Bool}

/-- The fleet's children and placements are on kept nodes. -/
structure KeptBy (keep : String → Bool) (fleetName : String) (world : World) : Prop where
  owned : world.Owned fleetName
  pins : ∀ (index : Nat) (node : String), world.pin fleetName index = some node →
    keep node = true
  placed : ∀ placement ∈ world.placements, keep placement.nodeRef = true

namespace KeptBy

variable (hkept : world.KeptBy keep metadata.name)

include hkept

theorem lose (gone : String → Bool) : (world.lose gone).KeptBy keep metadata.name where
  owned := hkept.owned.lose gone
  pins := fun index node hpin => hkept.pins index node (pin_of_lose hpin)
  placed := hkept.placed

variable (hwritten : ∀ slot ∈ (world.input metadata round).writtenPins, keep slot.2 = true)

include hwritten

theorem usesOnly : (world.input metadata round).UsesOnly keep where
  current := by
    intro index node hcurrent
    rw [hkept.owned.current_lookup] at hcurrent
    exact hkept.pins index node hcurrent
  placed := hkept.placed
  written := hwritten

theorem attempt (made : Nat) :
    (world.attempt metadata round made).KeptBy keep metadata.name := by
  have huses := hkept.usesOnly hwritten
  constructor
  · exact hkept.owned.attempt made
  · intro index node hpin
    by_cases hfull : round.IsFull metadata
    · rcases attempt_child world metadata round made index with ⟨-, -, hnone⟩ | hsame |
        ⟨target, hrange, htarget, hchild⟩
      · rw [pin, hnone] at hpin
        cases hpin
      · rw [pin, hsame] at hpin
        exact hkept.pins index node hpin
      · rw [pin, hchild] at hpin
        cases hpin
        exact huses.slot_kept (isFull_input.mpr hfull) hrange htarget
    · rw [pin, (attempt_of_not_isFull hfull made).1] at hpin
      exact hkept.pins index node hpin
  · intro placement hmem
    by_cases hfull : round.IsFull metadata
    · rcases attempt_placements world metadata round made with hsame | hnew
      · exact hkept.placed placement (hsame ▸ hmem)
      · exact huses.placements_kept (isFull_input.mpr hfull) (hnew ▸ hmem)
    · rw [(attempt_of_not_isFull hfull made).2] at hmem
      exact hkept.placed placement hmem

theorem attempt_restrict (made : Nat)
    (hpool : round.snapshot.poolCandidates round.spec.nodePool.selector ≠ [] →
      (round.restrict keep).snapshot.poolCandidates round.spec.nodePool.selector ≠ []) :
    world.attempt metadata (round.restrict keep) made = world.attempt metadata round made := by
  have hsame := (hkept.usesOnly hwritten).reconcileInner_restrict hpool
  have hinput : world.input metadata (round.restrict keep) =
      (world.input metadata round).restrict keep := rfl
  rw [World.attempt, World.attempt, hinput, hsame]

end KeptBy

/-- The calls of the reconcile at some time of a run, had it not been cut. -/
def callsAt (metadata : ObjectMeta) (steps : Nat → (String → Bool) × Round × Nat) (start : World)
    (time : Nat) : Except FleetError (List Call) :=
  reconcileInner (((start.lossyAttempts metadata steps time).lose (steps time).1).input metadata
    (steps time).2.1)

end World

def restrictSteps (keep : String → Bool) (steps : Nat → (String → Bool) × Round × Nat)
    (time : Nat) : (String → Bool) × Round × Nat :=
  ((steps time).1, (steps time).2.1.restrict keep, (steps time).2.2)

/-- Nodes no reconcile so far chose for a child make no difference: had no
NodeState and no Node of theirs been read, every call and every world would have
been the same, whichever reconciles were cut and whichever children were lost. -/
theorem unused_nodes_irrelevant (metadata : ObjectMeta) (keep : String → Bool) (start : World)
    (hstart : start.KeptBy keep metadata.name) (steps : Nat → (String → Bool) × Round × Nat)
    (hpool : ∀ time, ((steps time).2.1.snapshot.poolCandidates
        (steps time).2.1.spec.nodePool.selector ≠ []) →
      ((steps time).2.1.snapshot.restrict keep).poolCandidates
        (steps time).2.1.spec.nodePool.selector ≠ [])
    (time : Nat)
    (hwritten : ∀ earlier < time, ∀ slot ∈ ((((start.lossyAttempts metadata steps earlier).lose
      (steps earlier).1).input metadata (steps earlier).2.1).writtenPins), keep slot.2 = true) :
    start.lossyAttempts metadata (restrictSteps keep steps) time =
        start.lossyAttempts metadata steps time ∧
      ∀ earlier < time, start.callsAt metadata (restrictSteps keep steps) earlier =
        start.callsAt metadata steps earlier := by
  have hboth : ∀ done ≤ time, start.lossyAttempts metadata (restrictSteps keep steps) done =
        start.lossyAttempts metadata steps done ∧
      (start.lossyAttempts metadata steps done).KeptBy keep metadata.name := by
    intro done hdone
    induction done with
    | zero => exact ⟨rfl, hstart⟩
    | succ done ih =>
        obtain ⟨hsame, hkept⟩ := ih (Nat.le_of_succ_le hdone)
        have hlost := hkept.lose (steps done).1
        have hchosen := hwritten done hdone
        refine ⟨?_, hlost.attempt hchosen _⟩
        have hattempt := hlost.attempt_restrict hchosen (steps done).2.2 (hpool done)
        rw [World.lossyAttempts, run_succ, ← World.lossyAttempts, hsame, restrictSteps, hattempt]
        rfl
  refine ⟨(hboth time le_rfl).1, fun earlier hlt => ?_⟩
  obtain ⟨hsame, hkept⟩ := hboth earlier hlt.le
  have huses := (hkept.lose (steps earlier).1).usesOnly (hwritten earlier hlt)
  rw [World.callsAt, World.callsAt, hsame]
  exact huses.reconcileInner_restrict (hpool earlier)

namespace Sample

/-- The replica goes to `b`, so `a` could as well not be there. -/
def onlyOnB (_ : Nat) : (String → Bool) × Round × Nat :=
  (fun _ => false, round (spec 1 1 1) (snapshot ["a", "b"] []) [], 2)

theorem onlyOnB_pool : ((snapshot ["a", "b"] []).restrict fun node =>
    decide (node = "b")).poolCandidates (spec 1 1 1).nodePool.selector ≠ [] := by
  decide +kernel

theorem unused_nodes_irrelevant_sample :
    ((empty.lossyAttempts metadata onlyOnB 2).placements.map PlacementStatus.nodeRef = ["b"]) ∧
    empty.lossyAttempts metadata (restrictSteps (fun node => decide (node = "b")) onlyOnB) 2 =
        empty.lossyAttempts metadata onlyOnB 2 ∧
      ∀ earlier < 2,
        empty.callsAt metadata (restrictSteps (fun node => decide (node = "b")) onlyOnB) earlier =
          empty.callsAt metadata onlyOnB earlier := by
  refine ⟨by decide +kernel, unused_nodes_irrelevant metadata _ empty ⟨empty_owned _, ?_, ?_⟩
    onlyOnB (fun _ _ => onlyOnB_pool) 2 ?_⟩
  · intro index node hpin
    obtain ⟨child, hchild, -⟩ := Option.bind_eq_some_iff.mp hpin
    obtain ⟨_, -, -, -⟩ := empty_owned metadata.name _ child hchild
    simp [empty] at hchild
  · intro placement hmem
    cases hmem
  · intro earlier hlt
    interval_cases earlier
    · decide +kernel
    · decide +kernel

end Sample

end VllmColdstartOperator
