import VllmColdstartOperator.Guarantees.Cordon

/-!
# The watch on the node states

A change of one NodeState wakes the fleets of its namespace, while a reconcile
reads the NodeStates of every namespace.  Which fleets a change concerns is
decided by their pools, children and placements: a fleet that does not see the
node writes the same before and after it.
-/

namespace VllmColdstartOperator

open Foundation Std

/-! ## The mapper -/

structure ObjectRef where
  name : String
  ns : Option String
  deriving DecidableEq, Repr

def ObjectRef.fromObj (fleet : FleetService) : ObjectRef := ⟨fleet.name, fleet.metadata.ns⟩

/-- The fleets of the cache that a change of the node state enqueues. -/
def wokenBy (fleets : List FleetService) (node : NodeState) : List ObjectRef :=
  (fleets.filter fun fleet => fleet.metadata.ns = node.metadata.ns).map ObjectRef.fromObj

theorem mem_wokenBy {fleets : List FleetService} {fleet : FleetService} (hfleet : fleet ∈ fleets)
    (node : NodeState) :
    ObjectRef.fromObj fleet ∈ wokenBy fleets node ↔ fleet.metadata.ns = node.metadata.ns := by
  rw [wokenBy, List.mem_map]
  constructor
  · rintro ⟨other, hother, href⟩
    have hns := of_decide_eq_true (List.mem_filter.mp hother).2
    exact (congrArg ObjectRef.ns href).symm.trans hns
  · intro hns
    exact ⟨fleet, List.mem_filter.mpr ⟨hfleet, decide_eq_true hns⟩, rfl⟩

/-! ## One changed state -/

/-- One node state is created, or its status replaced. -/
inductive NodeStateChange (changed : NodeState) : List NodeState → List NodeState → Prop
  | created (before after : List NodeState) :
      NodeStateChange changed (before ++ after) (before ++ changed :: after)
  | updated (before after : List NodeState) (old : NodeState)
      (hmetadata : old.metadata = changed.metadata) :
      NodeStateChange changed (before ++ old :: after) (before ++ changed :: after)

theorem NodeStateChange.filter_eq {changed : NodeState} {states states' : List NodeState}
    (hchange : NodeStateChange changed states states') {name : String}
    (hname : name ≠ changed.name) :
    states.filter (fun state => state.name = name) =
      states'.filter fun state => state.name = name := by
  cases hchange with
  | created before after => simp [hname.symm]
  | updated before after old hmetadata =>
      have hold : old.name = changed.name := congrArg ObjectMeta.name hmetadata
      simp [hold, hname.symm]

namespace Snapshot

variable {snapshot : Snapshot} {changed : NodeState} {states : List NodeState}

def withStates (snapshot : Snapshot) (states : List NodeState) : Snapshot :=
  { snapshot with states := states }

variable (hchange : NodeStateChange changed snapshot.states states)

include hchange

theorem displaced_of_change {name : String} (hname : name ≠ changed.name) :
    name ∈ snapshot.displaced ↔ name ∈ (snapshot.withStates states).displaced := by
  have hpreempted : ∀ all : List NodeState,
      (∃ state ∈ all, preemptionNoticeDetected state = true ∧ state.name = name) ↔
        ∃ state ∈ all.filter (fun state => state.name = name),
          preemptionNoticeDetected state = true := by
    intro all
    simp only [List.mem_filter, decide_eq_true_eq]
    constructor
    · rintro ⟨state, hstate, hnotice, heq⟩
      exact ⟨state, ⟨hstate, heq⟩, hnotice⟩
    · rintro ⟨state, ⟨hstate, heq⟩, hnotice⟩
      exact ⟨state, hstate, hnotice, heq⟩
  rw [mem_displaced, mem_displaced, mem_preempted, mem_preempted, hpreempted, hpreempted,
    hchange.filter_eq hname]
  rfl

theorem lookup_of_change {name : String} (hname : name ≠ changed.name) :
    (candidatesByNode snapshot.states snapshot.clock)[name]? =
      (candidatesByNode states snapshot.clock)[name]? := by
  rw [candidatesByNode_lookup, hchange.filter_eq hname, ← candidatesByNode_lookup]

theorem poolCandidates_of_change {selector : BTreeMap String String}
    (hselector : selector.isEmpty = false)
    (hnodes : ∀ node ∈ snapshot.nodes.getD [],
      matchesNodePool node.metadata.labels selector = true → node.isUnschedulable = false →
        node.name ≠ changed.name) :
    (snapshot.withStates states).poolCandidates selector = snapshot.poolCandidates selector := by
  unfold poolCandidates
  rw [hselector, if_neg Bool.false_ne_true, if_neg Bool.false_ne_true]
  refine takeCandidates_congr fun node hnode => ?_
  obtain ⟨hadmitted, hschedulable⟩ := List.mem_filter.mp hnode
  obtain ⟨hnode, hmatches⟩ := List.mem_filter.mp hadmitted
  exact (lookup_of_change hchange
    (hnodes node hnode hmatches (by simpa using hschedulable))).symm

end Snapshot

/-! ## Whom a change concerns -/

namespace ReconcileInput

def writtenPhases (input : ReconcileInput) : Option (List (String × String)) :=
  match reconcileInner input with
  | .ok calls => calls.findSome? fun
      | .patchStatus patch => patch.written.placementPhases
      | _ => none
  | .error _ => none

end ReconcileInput

/-- A reconcile after the change writes other child pins or placement phases. -/
def FleetService.ConcernedBy (fleet : FleetService) (children : List VllmService)
    (snapshot : Snapshot) (states : List NodeState) : Prop :=
  (ReconcileInput.mk fleet snapshot children).writtenPins ≠
      (ReconcileInput.mk fleet (snapshot.withStates states) children).writtenPins ∨
    (ReconcileInput.mk fleet snapshot children).writtenPhases ≠
      (ReconcileInput.mk fleet (snapshot.withStates states) children).writtenPhases

/-- The pool admits the node, or a child or a placement is on it. -/
def FleetService.Sees (fleet : FleetService) (children : List VllmService)
    (snapshot : Snapshot) (name : String) : Prop :=
  fleet.spec.nodePool.selector.isEmpty = true ∨
    (∃ node ∈ snapshot.nodes.getD [],
      matchesNodePool node.metadata.labels fleet.spec.nodePool.selector = true ∧
        node.isUnschedulable = false ∧ node.name = name) ∨
    (∃ index : Nat,
      (ReconcileInput.mk fleet snapshot children).current[index]? = some name) ∨
    ∃ placement ∈ fleet.placements, placement.nodeRef = name

namespace ReconcileInput

theorem writtenPhases_of_isFull {input : ReconcileInput} (hfull : input.IsFull) :
    input.writtenPhases = some ((input.placements.map PlacementStatus.withoutRecord).map
      fun placement => (placement.vllmServiceRef, placement.phase)) := by
  have hchildren : input.childCalls.findSome? (fun
      | .patchStatus patch => patch.written.placementPhases
      | _ => none) = none := by
    rw [List.findSome?_eq_none_iff]
    intro call hcall
    rw [childCalls, List.mem_append, List.mem_map, List.mem_map] at hcall
    rcases hcall with ⟨slot, -, rfl⟩ | ⟨slot, -, rfl⟩
    · rfl
    · rfl
  rw [writtenPhases, reconcileInner_of_isFull hfull]
  dsimp only
  rw [List.findSome?_append, hchildren, List.map_map]
  rfl

theorem writtenPhases_of_not_isFull {input : ReconcileInput} (hfull : ¬ input.IsFull) :
    input.writtenPhases = none := by
  rw [writtenPhases]
  rcases reconcileInner_of_not_isFull hfull with ⟨error, heq⟩ | ⟨text, heq⟩
  · rw [heq]
  · rw [heq]
    rfl

end ReconcileInput

section Unseen

variable {fleet : FleetService} {children : List VllmService} {snapshot : Snapshot}
  {changed : NodeState} {states : List NodeState}
  (hchange : NodeStateChange changed snapshot.states states)
  (hunseen : ¬ fleet.Sees children snapshot changed.name)

include hunseen

theorem selector_of_not_sees : fleet.spec.nodePool.selector.isEmpty = false := by
  rw [← Bool.not_eq_true]
  exact fun hempty => hunseen (.inl hempty)

theorem name_ne_of_not_sees {candidate : NodeCandidate}
    (hcandidate : candidate ∈ snapshot.poolCandidates fleet.spec.nodePool.selector) :
    candidate.name ≠ changed.name := by
  have hname := List.mem_map_of_mem (f := NodeCandidate.name) hcandidate
  rw [Snapshot.poolCandidates, selector_of_not_sees hunseen, if_neg Bool.false_ne_true,
    selectorCandidates, takeCandidates_names _ (candidatesByNode_filed _ _)] at hname
  obtain ⟨node, hnode, heq⟩ := List.mem_map.mp hname
  obtain ⟨hadmitted, hschedulable⟩ := List.mem_filter.mp hnode
  obtain ⟨hlisted, hmatches⟩ := List.mem_filter.mp hadmitted
  intro hsame
  exact hunseen (.inr (.inl ⟨node, hlisted, hmatches, by simpa using hschedulable,
    heq.trans hsame⟩))

include hchange

theorem poolCandidates_of_not_sees :
    (snapshot.withStates states).poolCandidates fleet.spec.nodePool.selector =
      snapshot.poolCandidates fleet.spec.nodePool.selector := by
  refine Snapshot.poolCandidates_of_change hchange (selector_of_not_sees hunseen) ?_
  intro node hnode hmatches hschedulable hname
  exact hunseen (.inr (.inl ⟨node, hnode, hmatches, hschedulable, hname⟩))

theorem seesAlike_of_not_sees :
    ReconcileInput.SeesAlike fleet children snapshot (snapshot.withStates states) where
  pinned := by
    intro index node hcurrent
    apply Snapshot.displaced_of_change hchange
    rintro rfl
    exact hunseen (.inr (.inr (.inl ⟨index, hcurrent⟩)))
  placed := by
    intro placement hplacement
    apply Snapshot.displaced_of_change hchange
    intro hnode
    exact hunseen (.inr (.inr (.inr ⟨placement, hplacement, hnode⟩)))
  healthy := by
    have hcandidates : (ReconcileInput.mk fleet (snapshot.withStates states) children).candidates =
        (ReconcileInput.mk fleet snapshot children).candidates := by
      rw [ReconcileInput.candidates, ReconcileInput.poolCandidates,
        poolCandidates_of_not_sees hchange hunseen]
      rfl
    rw [ReconcileInput.healthyCandidates, ReconcileInput.healthyCandidates, hcandidates]
    have hsurviving : (ReconcileInput.mk fleet snapshot children).candidates.filter
          (fun candidate => candidate.name ∉ snapshot.displaced) =
        (ReconcileInput.mk fleet snapshot children).candidates.filter
          fun candidate => candidate.name ∉ (snapshot.withStates states).displaced := by
      refine List.filter_congr fun candidate hcandidate => ?_
      obtain ⟨pooled, hpooled, rfl⟩ := List.mem_map.mp hcandidate
      have hsame := Snapshot.displaced_of_change hchange (name_ne_of_not_sees hunseen hpooled)
      rw [decide_eq_decide]
      exact hsame.not
    exact congrArg (List.filter _) hsurviving

theorem not_concerned_of_not_sees : ¬ fleet.ConcernedBy children snapshot states := by
  have halike := seesAlike_of_not_sees hchange hunseen
  have hfull : (ReconcileInput.mk fleet (snapshot.withStates states) children).IsFull ↔
      (ReconcileInput.mk fleet snapshot children).IsFull := by
    unfold ReconcileInput.IsFull ReconcileInput.poolCandidates
    rw [poolCandidates_of_not_sees hchange hunseen]
    rfl
  rw [FleetService.ConcernedBy, not_or, not_not, not_not]
  by_cases hplans : (ReconcileInput.mk fleet snapshot children).IsFull
  · rw [ReconcileInput.writtenPins_of_isFull hplans,
      ReconcileInput.writtenPins_of_isFull (hfull.mpr hplans),
      ReconcileInput.writtenPhases_of_isFull hplans,
      ReconcileInput.writtenPhases_of_isFull (hfull.mpr hplans), halike.placements_eq]
    exact ⟨halike.slotNodes_eq, rfl⟩
  · rw [ReconcileInput.writtenPins_of_not_isFull hplans,
      ReconcileInput.writtenPins_of_not_isFull (hfull.not.mpr hplans),
      ReconcileInput.writtenPhases_of_not_isFull hplans,
      ReconcileInput.writtenPhases_of_not_isFull (hfull.not.mpr hplans)]
    exact ⟨rfl, rfl⟩

end Unseen

/-- A fleet a change concerns sees the node, and is enqueued exactly when it
lives in the namespace of the node state. -/
theorem watch_wakes_namespace (fleets : List FleetService)
    (children : FleetService → List VllmService) (snapshot : Snapshot) (changed : NodeState)
    (states : List NodeState) (hchange : NodeStateChange changed snapshot.states states)
    (fleet : FleetService) (hfleet : fleet ∈ fleets)
    (hconcerned : fleet.ConcernedBy (children fleet) snapshot states) :
    (ObjectRef.fromObj fleet ∈ wokenBy fleets changed ↔
      fleet.metadata.ns = changed.metadata.ns) ∧
    fleet.Sees (children fleet) snapshot changed.name := by
  refine ⟨mem_wokenBy hfleet changed, ?_⟩
  by_contra hunseen
  exact not_concerned_of_not_sees hchange hunseen hconcerned

namespace Sample

def stateIn (ns name : String) (notice : Bool) : NodeState :=
  { nodeState name notice with metadata := ⟨name, some ns, "", none, []⟩ }

def twoNodes (ns : String) : Snapshot :=
  { snapshot [] [] with states := [stateIn ns "a" false, stateIn ns "b" false] }

theorem twoNodes_change (ns : String) : NodeStateChange (stateIn ns "a" true)
    (twoNodes ns).states [stateIn ns "a" true, stateIn ns "b" false] :=
  .updated [] [stateIn ns "b" false] (stateIn ns "a" false) rfl

theorem watch_wakes_namespace_sample :
    ObjectRef.fromObj fleetOfOne ∈ wokenBy [fleetOfOne] (stateIn "default" "a" true) := by
  refine (watch_wakes_namespace [fleetOfOne] (fun _ => [childOn "a"]) (twoNodes "default")
    (stateIn "default" "a" true) [stateIn "default" "a" true, stateIn "default" "b" false]
    (twoNodes_change "default") fleetOfOne (by simp) (.inl ?_)).1.mpr rfl
  decide

/-- A notice in the operator's namespace moves the child of a fleet of another
one, and wakes no fleet. -/
theorem watch_counterexample :
    ¬ ∀ (fleets : List FleetService) (children : FleetService → List VllmService)
      (snapshot : Snapshot) (changed : NodeState) (states : List NodeState),
      NodeStateChange changed snapshot.states states → ∀ fleet ∈ fleets,
      (ReconcileInput.mk fleet snapshot (children fleet)).IsFull →
      (ReconcileInput.mk fleet (snapshot.withStates states) (children fleet)).IsFull →
      fleet.ConcernedBy (children fleet) snapshot states →
      ObjectRef.fromObj fleet ∈ wokenBy fleets changed := by
  intro hall
  have hwoken := hall [fleetOfOne] (fun _ => [childOn "a"]) (twoNodes "operator")
    (stateIn "operator" "a" true) [stateIn "operator" "a" true, stateIn "operator" "b" false]
    (twoNodes_change "operator") fleetOfOne (by simp) ⟨rfl, rfl, by decide⟩
    ⟨rfl, rfl, by decide⟩ (.inl (by decide))
  exact absurd hwoken (by decide)

end Sample

end VllmColdstartOperator
