import VllmColdstartOperator.FleetController.World

/-!
# What a reconcile does to the children it keeps

The calls that concern one child, and the placement the status gives it, depend
on the fleet and the children alone when the child's node is not displaced and
the reconcile plans.  A reconcile with no candidate concerns no child at all.
-/

namespace VllmColdstartOperator

open Foundation Std

/-! ## The calls that concern one child -/

namespace Call

def applied (name : String) : Call → Option VllmService
  | .applyChild child => if child.name = name then some child else none
  | .deleteChild _ => none
  | .patchStatus _ => none

def deletes (name : String) : Call → Bool
  | .applyChild _ => false
  | .deleteChild deleted => deleted = name
  | .patchStatus _ => false

def placed (name : String) : Call → Option PlacementStatus
  | .applyChild _ => none
  | .deleteChild _ => none
  | .patchStatus (.full status) =>
      (status.placements.find? fun placement => placement.vllmServiceRef = name).map
        PlacementStatus.withoutRecord
  | .patchStatus (.message _ _ _) => none

end Call

structure Treatment where
  applied : Option VllmService
  deleted : Bool
  placement : Option PlacementStatus

def treatment (calls : List Call) (name : String) : Treatment where
  applied := calls.findSome? (Call.applied name)
  deleted := calls.any (Call.deletes name)
  placement := calls.findSome? (Call.placed name)

/-- The treatment of a surplus slot, from what the hysteresis decides. -/
def surplusTreatment (outcome : Int32 × Bool) (placement : Int32 → PlacementStatus) :
    Treatment where
  applied := none
  deleted := outcome.2
  placement := if outcome.2 then none else some (placement outcome.1)

/-- The treatment of a slot that has a child on a node that is not displaced,
from the fleet and its children alone. -/
def keptTreatment (fleet : FleetService) (existing : List VllmService) (index : Nat)
    (node : String) : Treatment :=
  let input : ReconcileInput := ⟨fleet, ⟨[], ⟨0, fun _ => none⟩, none, none⟩, existing⟩
  let placement (surplusReconciles : Int32) : PlacementStatus :=
    { vllmServiceRef := childName fleet.name index
      nodeRef := node
      phase := placementPhaseFor
        ((input.prevPhase[childName fleet.name index]?).getD "Pending")
        ((input.childReady[childName fleet.name index]?).getD false) false
      lastTransitionTime := ""
      stableSince := ""
      surplusReconciles := surplusReconciles
      decidedOn := none }
  if index < input.desired then
    { applied := some (ownedVllmService fleet (fleet.metadata.ns.getD "") index node)
      deleted := false
      placement := some (placement 0) }
  else surplusTreatment (input.surplusOutcome index) placement

def callsOf : Except FleetError (List Call) → List Call
  | .ok calls => calls
  | .error _ => []

namespace ReconcileInput

variable {input : ReconcileInput}

theorem findSome_applied (slots : List (Nat × String)) (index : Nat) :
    (slots.map input.applyCall).findSome? (Call.applied (childName input.fleet.name index)) =
      (slots.lookup index).map fun node => input.child (index, node) := by
  induction slots with
  | nil => rfl
  | cons slot slots ih =>
      obtain ⟨other, node⟩ := slot
      rw [List.map_cons, List.findSome?_cons, List.lookup_cons, ih]
      have hcall : Call.applied (childName input.fleet.name index)
          (input.applyCall (other, node)) =
            if other = index then some (input.child (other, node)) else none := by
        simp [applyCall, Call.applied]
      rw [hcall]
      by_cases heq : index = other
      · simp [heq]
      · have hkey : (index == other) = false := by simpa using heq
        have hne : ¬ other = index := fun h => heq h.symm
        simp [hkey, hne]

theorem find_placement (index : Nat) :
    (input.placements.find? fun placement =>
      placement.vllmServiceRef = childName input.fleet.name index) =
        input.placementOf index := by
  cases hplacement : input.placementOf index with
  | none =>
      rw [List.find?_eq_none]
      intro placement hmem href
      have hunique := placement_unique hmem (of_decide_eq_true href)
      rw [hplacement] at hunique
      cases hunique
  | some placement =>
      have hmem := (mem_placements placement).mpr ⟨index, hplacement⟩
      have href := placementOf_ref hplacement
      obtain ⟨found, hfound⟩ := Option.isSome_iff_exists.mp
        (List.find?_isSome (p := fun placement =>
          decide (placement.vllmServiceRef = childName input.fleet.name index)) |>.mpr
            ⟨placement, hmem, decide_eq_true href⟩)
      have hunique := placement_unique (List.mem_of_find?_eq_some hfound)
        (by simpa using List.find?_some hfound)
      rw [hplacement] at hunique
      rw [hfound, hunique]

theorem findSome_of_deletes {V : Type} (value : Call → Option V)
    (hdelete : ∀ name, value (.deleteChild name) = none) (slots : List (Nat × String)) :
    (slots.map input.deleteCall).findSome? value = none := by
  rw [List.findSome?_eq_none_iff]
  intro call hcall
  obtain ⟨slot, -, rfl⟩ := List.mem_map.mp hcall
  exact hdelete _

theorem findSome_placed_applies (name : String) (slots : List (Nat × String)) :
    (slots.map input.applyCall).findSome? (Call.placed name) = none := by
  rw [List.findSome?_eq_none_iff]
  intro call hcall
  obtain ⟨slot, -, rfl⟩ := List.mem_map.mp hcall
  rfl

theorem any_deletes (index : Nat) :
    input.childCalls.any (Call.deletes (childName input.fleet.name index)) =
      decide (index ∈ input.removedSlots.map Prod.fst) := by
  rw [Bool.eq_iff_iff, List.any_eq_true, decide_eq_true_eq, List.mem_map]
  simp only [childCalls, List.mem_append, List.mem_map]
  constructor
  · rintro ⟨_, ⟨slot, -, rfl⟩ | ⟨slot, hslot, rfl⟩, hdeletes⟩
    · cases hdeletes
    · exact ⟨slot, hslot, (childName_inj _ _ _).mp (of_decide_eq_true hdeletes)⟩
  · rintro ⟨slot, hslot, rfl⟩
    exact ⟨_, .inr ⟨slot, hslot, rfl⟩, decide_eq_true rfl⟩

theorem treatment_of_isFull (hfull : input.IsFull) (index : Nat) :
    treatment (callsOf (reconcileInner input)) (childName input.fleet.name index) =
      { applied := (if index < input.desired then input.pin index else none).map fun node =>
          input.child (index, node)
        deleted := decide (index ∈ input.removedSlots.map Prod.fst)
        placement := (input.placementOf index).map PlacementStatus.withoutRecord } := by
  rw [reconcileInner_of_isFull hfull, callsOf, treatment, List.any_append, any_deletes,
    childCalls, List.findSome?_append, List.findSome?_append, List.findSome?_append,
    List.findSome?_append, findSome_applied, slotNodes_lookup, findSome_placed_applies,
    findSome_of_deletes _ (fun _ => rfl), findSome_of_deletes _ (fun _ => rfl)]
  have hpatch : [Call.patchStatus (.full input.fullStatus)].findSome?
      (Call.placed (childName input.fleet.name index)) =
        (input.placementOf index).map PlacementStatus.withoutRecord := by
    rw [← find_placement, List.findSome?_cons]
    cases hplaced : Call.placed (childName input.fleet.name index)
        (.patchStatus (.full input.fullStatus)) with
    | none => exact hplaced.symm
    | some placement => exact hplaced.symm
  rw [hpatch]
  simp [Call.applied, Call.deletes]

/-! ## Slots on nodes that are not displaced -/

theorem pin_of_not_displaced {index : Nat} {node : String}
    (hcurrent : input.current[index]? = some node) (hnode : node ∉ input.displaced) :
    input.pin index = some node := by
  by_contra hchanged
  exact hnode (moved_of_repinned hcurrent hchanged).2

theorem treatment_of_kept (hfull : input.IsFull) {index : Nat} {node : String}
    (hcurrent : input.current[index]? = some node) (hnode : node ∉ input.displaced) :
    treatment (callsOf (reconcileInner input)) (childName input.fleet.name index) =
      keptTreatment input.fleet input.existing index node := by
  rw [treatment_of_isFull hfull, pin_of_not_displaced hcurrent hnode]
  have hkept : index ∉ input.preemptedSlots := by
    rw [mem_preemptedSlots, hcurrent]
    simpa using hnode
  have hremoved : index ∈ input.removedSlots.map Prod.fst ↔
      ¬ index < input.desired ∧ (input.surplusOutcome index).2 = true := by
    simp [mem_removedSlots, hcurrent]
  by_cases hrange : index < input.desired
  · rw [if_pos hrange, decide_eq_false (fun h => (hremoved.mp h).1 hrange), placementOf,
      if_pos hrange, pin_of_not_displaced hcurrent hnode, Option.map_some, Option.map_some,
      appliedPlacement, decide_eq_false hkept]
    exact (if_pos hrange).symm
  · rw [if_neg hrange, placementOf, if_neg hrange, hcurrent]
    refine Eq.trans ?_ (if_neg hrange).symm
    have hdeleted : decide (index ∈ input.removedSlots.map Prod.fst) =
        (input.surplusOutcome index).2 := by
      rw [Bool.eq_iff_iff, decide_eq_true_eq, hremoved]
      exact and_iff_right hrange
    rw [hdeleted]
    show _ = surplusTreatment (input.surplusOutcome index) _
    unfold surplusTreatment
    cases (input.surplusOutcome index).2 with
    | true => rfl
    | false => rfl

end ReconcileInput

/-- Two snapshots that agree on which of the fleet's current nodes are displaced,
and either both leave a candidate or both leave none, have the reconcile do the
same to every slot with a child on a node that is not displaced.  With no
candidate the reconcile makes no call but the patch of the message. -/
theorem kept_slots_treated_alike (fleet : FleetService) (existing : List VllmService)
    (hns : fleet.metadata.ns.isSome = true)
    (hsupported : fleet.spec.placement.strategy.isSupported = true) (left right : Snapshot)
    (hagree : ∀ child ∈ existing, ∀ node, child.spec.nodeName = some node →
      (left.IsDisplaced node ↔ right.IsDisplaced node))
    (hcandidates : left.poolCandidates fleet.spec.nodePool.selector = [] ↔
      right.poolCandidates fleet.spec.nodePool.selector = []) :
    let input (snapshot : Snapshot) : ReconcileInput := ⟨fleet, snapshot, existing⟩
    (∀ index node, (input left).current[index]? = some node → ¬ left.IsDisplaced node →
      treatment (callsOf (reconcileInner (input left))) (childName fleet.name index) =
        treatment (callsOf (reconcileInner (input right))) (childName fleet.name index)) ∧
    (∀ index node, (input left).current[index]? = some node → ¬ left.IsDisplaced node →
      left.poolCandidates fleet.spec.nodePool.selector ≠ [] →
      treatment (callsOf (reconcileInner (input left))) (childName fleet.name index) =
        keptTreatment fleet existing index node) ∧
    (left.poolCandidates fleet.spec.nodePool.selector = [] →
      reconcileInner (input left) = .ok [.patchStatus
        ((input left).messagePatch (input left).noCandidateMessage)]) := by
  intro input
  have hplans : ∀ snapshot, snapshot.poolCandidates fleet.spec.nodePool.selector ≠ [] →
      ∀ index node, (input left).current[index]? = some node → ¬ snapshot.IsDisplaced node →
        treatment (callsOf (reconcileInner (input snapshot))) (childName fleet.name index) =
          keptTreatment fleet existing index node := by
    intro snapshot hpool index node hcurrent hnode
    rw [Snapshot.isDisplaced_iff] at hnode
    exact @ReconcileInput.treatment_of_kept (input snapshot)
      ⟨hns, hsupported, hpool⟩ index node hcurrent hnode
  refine ⟨?_, fun index node hcurrent hnode hpool => hplans left hpool index node hcurrent hnode,
    ReconcileInput.reconcileInner_of_no_candidate (input left) hns hsupported⟩
  intro index node hcurrent hnode
  have hright : ¬ right.IsDisplaced node := by
    obtain ⟨child, hmem, hpin⟩ := List.mem_filterMap.mp
      (BTreeMap.mem_of_lookup_collect hcurrent)
    obtain ⟨_, -, hpin⟩ := Option.bind_eq_some_iff.mp hpin
    obtain ⟨_, hnodeName, heq⟩ := Option.bind_eq_some_iff.mp hpin
    cases heq
    exact fun hdisplaced => hnode ((hagree child hmem node hnodeName).mpr hdisplaced)
  by_cases hpool : left.poolCandidates fleet.spec.nodePool.selector = []
  · rw [ReconcileInput.reconcileInner_of_no_candidate (input left) hns hsupported hpool,
      ReconcileInput.reconcileInner_of_no_candidate (input right) hns hsupported
        (hcandidates.mp hpool)]
    rfl
  · rw [hplans left hpool index node hcurrent hnode,
      hplans right (hcandidates.not.mp hpool) index node hcurrent hright]

namespace Sample

/-- A second node with no notice changes nothing for the child on `a`. -/
theorem kept_slots_treated_alike_sample :
    treatment (callsOf (reconcileInner ⟨fleetOfOne, snapshot ["a"] [], [childOn "a"]⟩)) "fleet-0" =
      treatment (callsOf (reconcileInner ⟨fleetOfOne, snapshot ["a", "b"] [], [childOn "a"]⟩))
        "fleet-0" := by
  have hcalm : ∀ names node, ¬ (snapshot names []).IsDisplaced node := by
    intro names node
    rw [snapshot_isDisplaced]
    simp
  refine (kept_slots_treated_alike fleetOfOne [childOn "a"] rfl rfl (snapshot ["a"] [])
    (snapshot ["a", "b"] []) ?_ ?_).1 0 "a" ?_ (hcalm _ _)
  · intro child _ node _
    exact ⟨fun h => absurd h (hcalm _ _), fun h => absurd h (hcalm _ _)⟩
  · exact ⟨fun h => absurd h (by decide), fun h => absurd h (by decide)⟩
  · decide

/-- With no NodeState the child on `a` is not applied again. -/
theorem no_candidate_counterexample :
    (∀ node, ¬ (snapshot [] []).IsDisplaced node ∧ ¬ (snapshot ["a"] []).IsDisplaced node) ∧
    (ReconcileInput.mk fleetOfOne (snapshot [] []) [childOn "a"]).current[0]? = some "a" ∧
    (treatment (callsOf (reconcileInner ⟨fleetOfOne, snapshot [] [], [childOn "a"]⟩))
      "fleet-0").applied.isSome = false ∧
    (treatment (callsOf (reconcileInner ⟨fleetOfOne, snapshot ["a"] [], [childOn "a"]⟩))
      "fleet-0").applied.isSome = true := by
  refine ⟨fun node => ?_, by decide, by decide, by decide⟩
  rw [snapshot_isDisplaced, snapshot_isDisplaced]
  simp

end Sample

end VllmColdstartOperator
