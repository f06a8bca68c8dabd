import VllmColdstartOperator.Guarantees.Census

/-!
# The order of the lists read

A reconcile files what it lists by name, sorts it or folds it with an operation
that does not mind the order, before anything is chosen.  So the calls it makes
do not depend on the order in which the API returns objects of distinct names.
-/

namespace VllmColdstartOperator

open Foundation Std

/-! ## Reconciles that read the same -/

namespace ReconcileInput

/-- All that the nodes of the slots are decided from. -/
structure DecidesSame (left right : ReconcileInput) : Prop where
  fleet : left.fleet = right.fleet
  current : left.current = right.current
  poolCandidates : left.poolCandidates = right.poolCandidates
  derivedWarmth : left.derivedWarmth = right.derivedWarmth
  displaced : left.displaced = right.displaced
  allocatable : left.snapshot.allocatable left.gpuRequest =
    right.snapshot.allocatable right.gpuRequest

namespace DecidesSame

variable {left right : ReconcileInput} (hsame : left.DecidesSame right)

include hsame

theorem candidates_eq : left.candidates = right.candidates := by
  rw [candidates, ownCounts, hsame.poolCandidates, hsame.current, hsame.derivedWarmth]
  rfl

theorem healthyCandidates_eq : left.healthyCandidates = right.healthyCandidates := by
  have hgpu : left.gpuRequest = right.gpuRequest := by rw [gpuRequest, hsame.fleet, gpuRequest]
  rw [healthyCandidates, hsame.candidates_eq, hsame.displaced, hsame.allocatable, hgpu]
  rfl

theorem preemptionPass_eq : left.preemptionPass = right.preemptionPass := by
  have hreplacement : left.replacement = right.replacement := by
    funext node
    rw [replacement, hsame.healthyCandidates_eq, strategy, horizonSecs, hsame.fleet]
    rfl
  have hbudget : left.budget = right.budget := by
    rw [budget, cap, inFlightMoves, hsame.fleet, hsame.displaced]
    rfl
  rw [preemptionPass, hreplacement, hbudget, hsame.current, hsame.displaced]
  rfl

theorem slotNodes_eq : left.slotNodes = right.slotNodes := by
  have hmissing : left.missing = right.missing := by
    rw [missing, desired, hsame.fleet, hsame.current]
    rfl
  have hfresh : left.fresh = right.fresh := by
    rw [fresh, hmissing, hsame.healthyCandidates_eq, strategy, horizonSecs, hsame.fleet]
    rfl
  rw [slotNodes, moved, hsame.preemptionPass_eq, hsame.current, hfresh, desired, hsame.fleet]
  rfl

theorem surplusOutcome_eq : left.surplusOutcome = right.surplusOutcome := by
  funext index
  rw [surplusOutcome, prevSurplus, hsame.fleet]
  rfl

theorem surplus_eq : left.surplus = right.surplus := by
  rw [surplus, hsame.current, desired, hsame.fleet]
  rfl

theorem heldSlots_eq : left.heldSlots = right.heldSlots := by
  rw [heldSlots, hsame.surplus_eq, hsame.surplusOutcome_eq]
  rfl

theorem deleteCalls_eq : left.deleteCalls = right.deleteCalls := by
  rw [deleteCalls, removedSlots, hsame.surplus_eq, hsame.surplusOutcome_eq, hsame.fleet]
  rfl

variable (hready : ∀ index ≤ usizeMax, left.childReady[childName left.fleet.name index]? =
  right.childReady[childName left.fleet.name index]?)

include hready

theorem advancedPhase_eq {index : Nat} (hle : index ≤ usizeMax) :
    left.advancedPhase index = right.advancedPhase index := by
  funext preemption
  rw [advancedPhase, prevPhase, hready index hle, hsame.fleet]
  rfl

theorem placements_eq : left.placements = right.placements := by
  have happlied : left.slotNodes.map left.appliedPlacement =
      right.slotNodes.map right.appliedPlacement := by
    rw [← hsame.slotNodes_eq]
    refine List.map_congr_left fun slot hslot => ?_
    have hle := listedSlots_le (List.mem_append_left _ hslot)
    rw [appliedPlacement, preemptedSlots, hsame.preemptionPass_eq,
      hsame.advancedPhase_eq hready hle, prevDecided, hsame.candidates_eq, strategy, horizonSecs,
      hsame.fleet]
    rfl
  have hheld : left.heldSlots.map left.heldPlacement =
      right.heldSlots.map right.heldPlacement := by
    rw [← hsame.heldSlots_eq]
    refine List.map_congr_left fun slot hslot => ?_
    have hle := listedSlots_le (List.mem_append_right _ hslot)
    rw [heldPlacement, hsame.advancedPhase_eq hready hle, hsame.surplusOutcome_eq, prevDecided,
      hsame.fleet]
    rfl
  rw [placements, happlied, hheld]
  rfl

theorem fullStatus_eq : left.fullStatus = right.fullStatus := by
  rw [fullStatus, readyReplicas, warmingReplicas, activeReschedules, drainAndHold,
    hsame.placements_eq hready, hsame.displaced, hsame.fleet]
  rfl

theorem reconcileInner_eq : reconcileInner left = reconcileInner right := by
  have happly : left.applyCalls = right.applyCalls := by
    rw [applyCalls, hsame.slotNodes_eq, hsame.fleet]
    rfl
  rw [reconcileInner, strategy, messagePatch, messagePatch, noCandidateMessage, happly,
    hsame.deleteCalls_eq, hsame.fullStatus_eq hready, hsame.poolCandidates, hsame.fleet]
  rfl

end DecidesSame

/-- All that the calls of a reconcile are made from. -/
structure ReadsSame (left right : ReconcileInput) : Prop where
  fleet : left.fleet = right.fleet
  current : left.current = right.current
  childReady : left.childReady = right.childReady
  poolCandidates : left.poolCandidates = right.poolCandidates
  derivedWarmth : left.derivedWarmth = right.derivedWarmth
  displaced : left.displaced = right.displaced
  allocatable : left.snapshot.allocatable left.gpuRequest =
    right.snapshot.allocatable right.gpuRequest

theorem ReadsSame.reconcileInner_eq {left right : ReconcileInput}
    (hsame : left.ReadsSame right) : reconcileInner left = reconcileInner right := by
  have hdecides : left.DecidesSame right := {
    fleet := hsame.fleet
    current := hsame.current
    poolCandidates := hsame.poolCandidates
    derivedWarmth := hsame.derivedWarmth
    displaced := hsame.displaced
    allocatable := hsame.allocatable }
  apply hdecides.reconcileInner_eq
  intro index _
  rw [hsame.childReady]

end ReconcileInput

/-! ## Lists in another order -/

theorem cmpNodeState_eq {left right : NodeState} :
    cmpNodeState left right = .eq ↔
      left.name = right.name ∧ left.metadata.ns = right.metadata.ns := by
  rw [cmpNodeState, Ordering.then_eq_eq, Std.compare_eq_iff_eq,
    presentAbove_eq_iff fun _ _ => Std.compare_eq_iff_eq]

def ObjectMeta.key (metadata : ObjectMeta) : Option String × String :=
  (metadata.ns, metadata.name)

theorem candidatesByNode_perm {states others : List NodeState} (hperm : states.Perm others)
    (hkeys : (states.map fun state => state.metadata.key).Nodup) (clock : Clock) :
    candidatesByNode states clock = candidatesByNode others clock := by
  rw [candidatesByNode, insertionSort_perm hperm, candidatesByNode]
  refine (List.pairwise_map.mp hkeys).imp fun hne hlevel => hne ?_
  obtain ⟨hname, hns⟩ := cmpNodeState_eq.mp hlevel
  exact Prod.ext hns hname

theorem warmer_right_comm (start first second : Warmth) :
    warmer (warmer start first) second = warmer (warmer start second) first := by
  cases start <;> cases first <;> cases second <;> rfl

theorem deriveWarmth_perm {instances others : List WarmthInstance}
    (hperm : instances.Perm others) : deriveWarmth instances = deriveWarmth others := by
  refine hperm.foldl_eq' (fun first _ second _ byNode => ?_) ∅
  obtain ⟨node, phase, own⟩ := first
  obtain ⟨node', phase', own'⟩ := second
  cases own with
  | true => rfl
  | false =>
      cases own' with
      | true => rfl
      | false =>
          refine ExtTreeMap.ext_getElem? fun key => ?_
          simp only [BTreeMap.lookup_insert, Bool.false_eq_true, if_false]
          by_cases hnode : node = node'
          · subst hnode
            rw [if_pos rfl, if_pos rfl, Option.getD_some, Option.getD_some, warmer_right_comm]
            by_cases hkey : node = key <;> simp [hkey]
          · rw [if_neg hnode, if_neg (Ne.symm hnode)]
            by_cases hkey : node = key <;> by_cases hkey' : node' = key <;> simp_all

theorem slotPin_name {child : VllmService} {fleetName : String} {slot : Nat × String}
    (hname : ∃ index, child.name = childName fleetName index) (hslot : slotPin child = some slot) :
    child.name = childName fleetName slot.1 := by
  obtain ⟨index, hname⟩ := hname
  obtain ⟨found, hindex, hrest⟩ := Option.bind_eq_some_iff.mp hslot
  obtain ⟨node, -, hpair⟩ := Option.bind_eq_some_iff.mp hrest
  rw [hname, slotIndexOf_childName] at hindex
  split at hindex
  · cases hindex
    cases hpair
    exact hname
  · cases hindex

namespace ReconcileInput

/-- Two reconciles that read the same objects, in another order: the NodeStates, the
children and the cluster's services, and without a selector the Nodes.  No two
NodeStates of a namespace, children or Nodes have one name. -/
structure SameObjects (left right : ReconcileInput) : Prop where
  fleet : left.fleet = right.fleet
  clock : left.snapshot.clock = right.snapshot.clock
  states : left.snapshot.states.Perm right.snapshot.states
  stateKeys : (left.snapshot.states.map fun state => state.metadata.key).Nodup
  existing : left.existing.Perm right.existing
  childNames : (left.existing.map VllmService.name).Nodup
  children : ∀ child ∈ left.existing, ∃ index, child.name = childName left.fleet.name index
  services : Option.Rel List.Perm left.snapshot.allServices right.snapshot.allServices
  nodes : if left.fleet.spec.nodePool.selector.isEmpty then
    Option.Rel List.Perm left.snapshot.nodes right.snapshot.nodes
  else left.snapshot.nodes = right.snapshot.nodes
  nodeNames : ∀ nodes, left.snapshot.nodes = some nodes → (nodes.map Node.name).Nodup

namespace SameObjects

variable {left right : ReconcileInput} (hsame : left.SameObjects right)

include hsame

theorem nodes_perm : Option.Rel List.Perm left.snapshot.nodes right.snapshot.nodes := by
  have hnodes := hsame.nodes
  split at hnodes
  · exact hnodes
  · rw [hnodes]
    cases right.snapshot.nodes with
    | none => exact .none
    | some nodes => exact .some (.refl nodes)

theorem current_eq : left.current = right.current := by
  refine BTreeMap.collect_perm (hsame.existing.filterMap slotPin) ?_
  rw [List.Nodup, List.pairwise_map, List.pairwise_filterMap]
  refine (List.pairwise_map.mp hsame.childNames).imp_of_mem fun hfirst hsecond hne => ?_
  intro slot hslot other hother hindex
  refine hne ((slotPin_name (hsame.children _ hfirst) hslot).trans ?_)
  rw [hindex, slotPin_name (hsame.children _ hsecond) hother]

theorem childReady_eq : left.childReady = right.childReady := by
  refine BTreeMap.collect_perm (hsame.existing.map _) ?_
  rw [List.map_map]
  exact hsame.childNames

theorem cordoned_eq : left.snapshot.cordoned = right.snapshot.cordoned := by
  rw [Snapshot.cordoned, Snapshot.cordoned]
  refine BTreeSet.collect_perm (List.Perm.map _ (List.Perm.filter _ ?_))
  have hperm := hsame.nodes_perm
  generalize left.snapshot.nodes = nodes, right.snapshot.nodes = others at hperm
  cases hperm with
  | none => exact .refl _
  | some hperm => exact hperm

theorem displaced_eq : left.displaced = right.displaced := by
  rw [displaced, displaced, Snapshot.displaced, Snapshot.displaced, hsame.cordoned_eq,
    Snapshot.preempted, BTreeSet.collect_perm ((hsame.states.filter _).map _)]
  rfl

theorem allocatable_eq : left.snapshot.allocatable left.gpuRequest =
    right.snapshot.allocatable right.gpuRequest := by
  have hperm := hsame.nodes_perm
  have hnames := hsame.nodeNames
  rw [Snapshot.allocatable, Snapshot.allocatable, gpuRequest, hsame.fleet, ← gpuRequest]
  generalize left.snapshot.nodes = nodes, right.snapshot.nodes = others at hperm hnames
  cases hperm with
  | none => rfl
  | some hperm =>
      dsimp only
      rw [BTreeMap.collect_perm (hperm.map _)]
      rw [List.map_map]
      exact hnames _ rfl

theorem poolCandidates_eq : left.poolCandidates = right.poolCandidates := by
  have hbyNode : candidatesByNode left.snapshot.states left.snapshot.clock =
      candidatesByNode right.snapshot.states right.snapshot.clock := by
    rw [candidatesByNode_perm hsame.states hsame.stateKeys, hsame.clock]
  have hnodes := hsame.nodes
  rw [poolCandidates, Snapshot.poolCandidates, hbyNode, hsame.cordoned_eq, poolCandidates,
    Snapshot.poolCandidates, ← hsame.fleet]
  split
  · rfl
  · next hselector =>
      rw [if_neg hselector] at hnodes
      rw [hnodes]

theorem derivedWarmth_eq : left.derivedWarmth = right.derivedWarmth := by
  have hservices := hsame.services
  rw [derivedWarmth, derivedWarmth, hsame.fleet]
  generalize left.snapshot.allServices = services, right.snapshot.allServices = others
    at hservices
  cases hservices with
  | none => rfl
  | some hperm => exact deriveWarmth_perm (hperm.filterMap _)

theorem readsSame : left.ReadsSame right where
  fleet := hsame.fleet
  current := hsame.current_eq
  childReady := hsame.childReady_eq
  poolCandidates := hsame.poolCandidates_eq
  derivedWarmth := hsame.derivedWarmth_eq
  displaced := hsame.displaced_eq
  allocatable := hsame.allocatable_eq

end SameObjects

end ReconcileInput

/-! ## NodeStates of one name -/

/-- The namespace of the one sorts no later than the other's; none sorts first. -/
def NodeState.NoLater (state other : NodeState) : Prop :=
  ∀ ns, state.metadata.ns = some ns → ∃ later, other.metadata.ns = some later ∧ ns ≤ later

theorem NodeState.noLater_iff {state other : NodeState} :
    state.NoLater other ↔
      (presentAbove compare state.metadata.ns other.metadata.ns).isLE = true := by
  have hle : ∀ left right : String, (compare left right).isLE = true ↔ left ≤ right := by
    intro left right
    rw [Ordering.isLE_iff_ne_gt]
    exact compare_le_iff_le
  rw [presentAbove_isLE_iff]
  simp only [NoLater, hle]

/-- The state of a name with a status in the least namespace is the candidate. -/
theorem candidatesByNode_least {states : List NodeState}
    (hkeys : (states.map fun state => state.metadata.key).Nodup) (clock : Clock)
    {state : NodeState} (hmem : state ∈ states) (hstatus : state.status.isSome = true)
    (hleast : ∀ other ∈ states, other.name = state.name → other.status.isSome = true →
      state.NoLater other) :
    (candidatesByNode states clock)[state.name]? = nodeStateToCandidate state clock := by
  have hsome : (candidateNamed state.name clock state).isSome = true := by
    simpa [candidateNamed, nodeStateToCandidate_isSome] using hstatus
  rw [candidatesByNode_findSome]
  have hsorted := List.pairwise_insertionSort
    (fun left right => (cmpNodeState left right).isLE = true) states
  have hperm := List.perm_insertionSort
    (fun left right => (cmpNodeState left right).isLE = true) states
  generalize states.insertionSort (fun left right => (cmpNodeState left right).isLE = true) =
    sorted at hsorted hperm ⊢
  have hfound : (sorted.findSome? (candidateNamed state.name clock)).isSome = true := by
    rw [List.findSome?_isSome_iff]
    exact ⟨state, hperm.mem_iff.mpr hmem, hsome⟩
  obtain ⟨candidate, hcandidate⟩ := Option.isSome_iff_exists.mp hfound
  rw [hcandidate]
  obtain ⟨before, first, after, rfl, hfirst, hnone⟩ := List.findSome?_eq_some_iff.mp hcandidate
  obtain ⟨hname, hread⟩ := candidateNamed_eq_some.mp hfirst
  have hlater : state ∈ first :: after := by
    refine (List.mem_append.mp (hperm.mem_iff.mpr hmem)).resolve_left fun hbefore => ?_
    rw [hnone state hbefore] at hsome
    cases hsome
  have hfirstMem : first ∈ states := hperm.mem_iff.mp (by simp)
  have hsame : first = state := by
    rcases List.mem_cons.mp hlater with heq | hafter
    · exact heq.symm
    · have hle := (List.pairwise_cons.mp (List.pairwise_append.mp hsorted).2.1).1 state hafter
      have hfirstStatus : first.status.isSome = true := by
        rw [← nodeStateToCandidate_isSome first clock, hread]
        rfl
      have hge : (cmpNodeState state first).isLE = true := by
        rw [cmpNodeState, isLE_then_iff]
        refine ⟨?_, fun _ => NodeState.noLater_iff.mp
          (hleast first hfirstMem hname hfirstStatus)⟩
        rw [hname]
        exact ReflCmp.isLE_rfl
      obtain ⟨-, hns⟩ := cmpNodeState_eq.mp (OrientedCmp.isLE_antisymm hle hge)
      exact List.inj_on_of_nodup_map hkeys hfirstMem hmem (Prod.ext hns hname)
  rw [← hsame, hread]

theorem takeCandidates_eq_map {nodes : List Node} (hnodup : (nodes.map Node.name).Nodup)
    (byNode : BTreeMap String NodeCandidate) :
    takeCandidates nodes byNode =
      nodes.map fun node => (byNode[node.name]?).getD (bareCandidate node.name) := by
  induction nodes generalizing byNode with
  | nil => rfl
  | cons node nodes ih =>
      obtain ⟨habsent, hrest⟩ := List.nodup_cons.mp hnodup
      rw [takeCandidates, ih hrest, List.map_cons]
      congr 1
      refine List.map_congr_left fun other hother => ?_
      have hne : node.name ≠ other.name := fun hsame =>
        habsent (hsame ▸ List.mem_map_of_mem hother)
      rw [BTreeMap.lookup_erase, if_neg hne]

theorem Snapshot.poolCandidate_eq {snapshot : Snapshot} {selector : BTreeMap String String}
    (hnodes : ∀ nodes, snapshot.nodes = some nodes → (nodes.map Node.name).Nodup)
    {candidate : NodeCandidate} (hmem : candidate ∈ snapshot.poolCandidates selector) :
    candidate = ((candidatesByNode snapshot.states snapshot.clock)[candidate.name]?).getD
      (bareCandidate candidate.name) := by
  have hfiled := candidatesByNode_filed snapshot.states snapshot.clock
  unfold poolCandidates at hmem
  split at hmem
  · obtain ⟨⟨name, _⟩, hpair, rfl⟩ := List.mem_map.mp (List.mem_filter.mp hmem).1
    have hlookup := ExtTreeMap.mem_toList_iff_getElem?_eq_some.mp hpair
    rw [hfiled name _ hlookup, hlookup]
    rfl
  · have hnodup : (((snapshot.nodes.getD []).filter fun node =>
        matchesNodePool node.metadata.labels selector).filter fun node =>
          !node.isUnschedulable).map Node.name |>.Nodup := by
      refine ((List.filter_sublist.trans List.filter_sublist).map _).nodup ?_
      cases hread : snapshot.nodes with
      | none => simp
      | some nodes => exact hnodes nodes hread
    rw [selectorCandidates, takeCandidates_eq_map hnodup] at hmem
    obtain ⟨node, -, rfl⟩ := List.mem_map.mp hmem
    rw [hfiled.getD_name]

/-- The calls of a reconcile do not depend on the order of the lists it reads.  Of
the NodeStates of one name the one in the least namespace with a status lends its
signals, and a notice on any of them displaces the node. -/
theorem reconcile_ignores_list_order (left right : ReconcileInput)
    (hsame : left.SameObjects right) :
    reconcileInner left = reconcileInner right ∧
    (∀ state ∈ left.snapshot.states, state.status.isSome = true →
      (∀ other ∈ left.snapshot.states, other.name = state.name →
        other.status.isSome = true → state.NoLater other) →
      ∀ candidate ∈ left.poolCandidates, candidate.name = state.name →
        nodeStateToCandidate state left.snapshot.clock = some candidate) ∧
    ∀ state ∈ left.snapshot.states, preemptionNoticeDetected state = true →
      state.name ∈ left.displaced := by
  refine ⟨hsame.readsSame.reconcileInner_eq, fun state hmem hstatus hleast candidate hpool hname =>
    ?_, fun state hmem hnotice => ?_⟩
  · have hread := candidatesByNode_least hsame.stateKeys left.snapshot.clock hmem hstatus hleast
    obtain ⟨found, hfound⟩ := Option.isSome_iff_exists.mp
      ((nodeStateToCandidate_isSome state left.snapshot.clock).trans hstatus)
    have hcandidate := Snapshot.poolCandidate_eq hsame.nodeNames hpool
    rw [hname, hread, hfound] at hcandidate
    rw [hfound, hcandidate]
    rfl
  · exact (Snapshot.mem_displaced _ _).mpr
      (.inl ((Snapshot.mem_preempted _ _).mpr ⟨state, hmem, hnotice, rfl⟩))

namespace Sample

def listed : ReconcileInput where
  fleet := fleetOfOne
  snapshot := snapshot ["a", "b", "c"] ["a"]
  existing := [0, 1].map fun index => ownedVllmService fleetOfOne "default" index "a"

def listedBackwards : ReconcileInput where
  fleet := fleetOfOne
  snapshot := { snapshot ["a", "b", "c"] ["a"] with states := listed.snapshot.states.reverse }
  existing := listed.existing.reverse

theorem reconcile_ignores_list_order_sample :
    reconcileInner listed = reconcileInner listedBackwards := by
  have hsame : listed.SameObjects listedBackwards := {
    fleet := rfl
    clock := rfl
    states := (List.reverse_perm _).symm
    stateKeys := by decide
    existing := (List.reverse_perm _).symm
    childNames := by decide
    children := by
      intro child hchild
      obtain ⟨index, -, rfl⟩ := List.mem_map.mp hchild
      exact ⟨index, rfl⟩
    services := .some .nil
    nodes := by
      rw [if_pos (by decide)]
      exact .some .nil
    nodeNames := by
      rintro nodes ⟨⟩
      exact .nil }
  exact (reconcile_ignores_list_order listed listedBackwards hsame).1

end Sample

end VllmColdstartOperator
