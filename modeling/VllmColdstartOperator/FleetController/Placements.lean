import VllmColdstartOperator.FleetController.Passes

/-!
# The calls of a full reconcile and the placements it writes

A full reconcile makes its calls on the children, then writes one placement for
each slot in range that has a node and one for each surplus slot it holds.  The
next reconcile reads phase, counter and record of a slot back from that
placement.
-/

namespace VllmColdstartOperator

open Foundation Std

/-! ## The calls of a full reconcile -/

def Call.appliedPin : Call → Option (Nat × String)
  | .applyChild child => slotPin child
  | .deleteChild _ => none
  | .patchStatus _ => none

namespace ReconcileInput

variable {input : ReconcileInput}

def child (input : ReconcileInput) (slot : Nat × String) : VllmService :=
  ownedVllmService input.fleet (input.fleet.metadata.ns.getD "") slot.1 slot.2

def applyCall (input : ReconcileInput) (slot : Nat × String) : Call :=
  .applyChild (input.child slot)

def deleteCall (input : ReconcileInput) (slot : Nat × String) : Call :=
  .deleteChild (childName input.fleet.name slot.1)

def childCalls (input : ReconcileInput) : List Call :=
  input.slotNodes.map input.applyCall ++ input.removedSlots.map input.deleteCall

@[simp] theorem child_name (slot : Nat × String) :
    (input.child slot).name = childName input.fleet.name slot.1 := rfl

@[simp] theorem child_nodeName (slot : Nat × String) :
    (input.child slot).spec.nodeName = some slot.2 := rfl

theorem applyCalls_eq (hns : input.fleet.metadata.ns.isSome = true) :
    input.applyCalls = .ok (input.slotNodes.map input.applyCall) := by
  obtain ⟨ns, hns⟩ := Option.isSome_iff_exists.mp hns
  rw [applyCalls]
  induction input.slotNodes with
  | nil => rfl
  | cons slot slots ih =>
      rw [List.mapM_cons, ih]
      simp [buildOwnedVllmService, hns, applyCall, child]
      rfl

theorem reconcileInner_of_isFull (hfull : input.IsFull) :
    reconcileInner input =
      .ok (input.childCalls ++ [.patchStatus (.full input.fullStatus)]) := by
  obtain ⟨hns, hsupported, hcandidates⟩ := hfull
  have happly := applyCalls_eq hns
  obtain ⟨ns, hns⟩ := Option.isSome_iff_exists.mp hns
  have hempty : input.poolCandidates.isEmpty = false := by
    simpa [List.isEmpty_iff] using hcandidates
  simp only [reconcileInner, hns, hsupported, hempty, happly]
  rfl

theorem reconcileInner_of_no_candidate (input : ReconcileInput)
    (hns : input.fleet.metadata.ns.isSome = true)
    (hsupported : input.strategy.isSupported = true) (hnone : input.poolCandidates = []) :
    reconcileInner input =
      .ok [.patchStatus (input.messagePatch input.noCandidateMessage)] := by
  obtain ⟨ns, hns⟩ := Option.isSome_iff_exists.mp hns
  simp [reconcileInner, hns, hsupported, hnone]

theorem reconcileInner_of_not_isFull (hfull : ¬ input.IsFull) :
    (∃ error, reconcileInner input = .error error) ∨
      ∃ text, reconcileInner input = .ok [.patchStatus (input.messagePatch text)] := by
  cases hns : input.fleet.metadata.ns with
  | none => exact .inl ⟨.missingNamespace, by simp [reconcileInner, hns]⟩
  | some ns =>
      right
      cases hsupported : input.strategy.isSupported with
      | false => exact ⟨unsupportedMessage, by simp [reconcileInner, hns, hsupported]⟩
      | true =>
          have hempty : input.poolCandidates = [] := by
            by_contra hne
            exact hfull ⟨by simp [hns], hsupported, hne⟩
          exact ⟨input.noCandidateMessage, by
            simp [reconcileInner, hns, hsupported, hempty]⟩

theorem slotNodes_lookup (index : Nat) :
    input.slotNodes.lookup index = if index < input.desired then input.pin index else none := by
  apply Option.ext
  intro node
  rw [BTreeMap.lookup_eq_some_iff_mem slotNodes_sorted, mem_slotNodes]
  by_cases hrange : index < input.desired
  · simp [hrange]
  · simp [hrange]

theorem childCalls_take (made : Nat) :
    input.childCalls.take made =
      (input.slotNodes.take made).map input.applyCall ++
        (input.removedSlots.take (made - input.slotNodes.length)).map input.deleteCall := by
  rw [childCalls, List.take_append, List.map_take, List.map_take, List.length_map]

/-! ## The pins a reconcile writes -/

def writtenPins (input : ReconcileInput) : List (Nat × String) :=
  match reconcileInner input with
  | .ok calls => calls.filterMap Call.appliedPin
  | .error _ => []

theorem appliedPin_applyCall {slot : Nat × String} (hrange : slot.1 < input.desired) :
    (input.applyCall slot).appliedPin = some slot := by
  have hle : slot.1 ≤ usizeMax := by
    have hlt := @desired_lt input
    unfold usizeMax
    omega
  exact slotPin_of_named hle rfl rfl

theorem writtenPins_of_isFull (hfull : input.IsFull) : input.writtenPins = input.slotNodes := by
  have happlied : (input.slotNodes.map input.applyCall).filterMap Call.appliedPin =
      input.slotNodes := by
    rw [List.filterMap_map]
    conv_rhs => rw [← List.filterMap_some (l := input.slotNodes)]
    refine List.filterMap_congr fun slot hslot => ?_
    exact appliedPin_applyCall ((mem_slotNodes slot.1 slot.2).mp hslot).1
  have hdeleted : (input.removedSlots.map input.deleteCall).filterMap Call.appliedPin = [] := by
    rw [List.filterMap_map]
    exact List.filterMap_eq_nil_iff.mpr fun _ _ => rfl
  rw [writtenPins, reconcileInner_of_isFull hfull]
  simp only [childCalls, List.filterMap_append, happlied, hdeleted, List.append_nil]
  exact List.append_nil _

theorem writtenPins_of_not_isFull (hfull : ¬ input.IsFull) : input.writtenPins = [] := by
  rw [writtenPins]
  rcases reconcileInner_of_not_isFull hfull with ⟨error, heq⟩ | ⟨text, heq⟩
  · rw [heq]
  · rw [heq]
    rfl

/-! ## Written placements -/

def placementOf (input : ReconcileInput) (index : Nat) : Option PlacementStatus :=
  if index < input.desired then
    (input.pin index).map fun node => input.appliedPlacement (index, node)
  else if (input.surplusOutcome index).2 then none
  else (input.current[index]?).map fun node => input.heldPlacement (index, node)

theorem mem_removedSlots (index : Nat) (node : String) :
    (index, node) ∈ input.removedSlots ↔
      input.current[index]? = some node ∧ ¬ index < input.desired ∧
        (input.surplusOutcome index).2 = true := by
  simp only [removedSlots, surplus, List.mem_filter, BTreeMap.mem_toList, decide_not,
    Bool.not_eq_true', decide_eq_false_iff_not, and_assoc]

theorem mem_heldSlots (index : Nat) (node : String) :
    (index, node) ∈ input.heldSlots ↔
      input.current[index]? = some node ∧ ¬ index < input.desired ∧
        (input.surplusOutcome index).2 = false := by
  simp only [heldSlots, surplus, List.mem_filter, BTreeMap.mem_toList, decide_not,
    Bool.not_eq_true', decide_eq_false_iff_not, and_assoc]

theorem removedSlots_sorted :
    input.removedSlots.Pairwise fun left right => left.1 < right.1 :=
  ((BTreeMap.toList_sorted input.current).filter _).filter _

theorem mem_placements (placement : PlacementStatus) :
    placement ∈ input.placements ↔ ∃ index, input.placementOf index = some placement := by
  rw [placements, (List.perm_insertionSort _ _).mem_iff, List.mem_append, List.mem_map,
    List.mem_map]
  constructor
  · rintro (⟨⟨index, node⟩, hslot, rfl⟩ | ⟨⟨index, node⟩, hslot, rfl⟩)
    · obtain ⟨hrange, hpin⟩ := (mem_slotNodes index node).mp hslot
      exact ⟨index, by rw [placementOf, if_pos hrange, hpin]; rfl⟩
    · obtain ⟨hcurrent, hrange, hheld⟩ := (mem_heldSlots index node).mp hslot
      exact ⟨index, by simp [placementOf, hrange, hheld, hcurrent]⟩
  · rintro ⟨index, hplacement⟩
    unfold placementOf at hplacement
    split at hplacement
    · next hrange =>
        obtain ⟨node, hpin, rfl⟩ := Option.map_eq_some_iff.mp hplacement
        exact .inl ⟨(index, node), (mem_slotNodes index node).mpr ⟨hrange, hpin⟩, rfl⟩
    · next hrange =>
        split at hplacement
        · simp at hplacement
        · next hheld =>
            obtain ⟨node, hcurrent, rfl⟩ := Option.map_eq_some_iff.mp hplacement
            exact .inr ⟨(index, node), (mem_heldSlots index node).mpr
              ⟨hcurrent, hrange, by simpa using hheld⟩, rfl⟩

theorem placementOf_ref {index : Nat} {placement : PlacementStatus}
    (hplacement : input.placementOf index = some placement) :
    placement.vllmServiceRef = childName input.fleet.name index := by
  unfold placementOf at hplacement
  split at hplacement
  · obtain ⟨node, -, rfl⟩ := Option.map_eq_some_iff.mp hplacement
    rfl
  · split at hplacement
    · simp at hplacement
    · obtain ⟨node, -, rfl⟩ := Option.map_eq_some_iff.mp hplacement
      rfl

theorem placement_unique {index : Nat} {placement : PlacementStatus}
    (hmem : placement ∈ input.placements)
    (href : placement.vllmServiceRef = childName input.fleet.name index) :
    input.placementOf index = some placement := by
  obtain ⟨other, hother⟩ := (mem_placements placement).mp hmem
  have hindex : index = other :=
    childName_injective input.fleet.name (href.symm.trans (placementOf_ref hother))
  rw [hindex, hother]

/-! ## What the next reconcile reads back -/

theorem lookup_written (input : ReconcileInput) {V : Type} (value : PlacementStatus → Option V)
    (index : Nat) :
    (BTreeMap.collect (input.placements.filterMap fun placement =>
      (value placement).map fun found => (placement.vllmServiceRef, found)))[
        childName input.fleet.name index]? = (input.placementOf index).bind value := by
  refine BTreeMap.lookup_collect_eq fun found => ?_
  rw [List.mem_filterMap, Option.bind_eq_some_iff]
  constructor
  · rintro ⟨placement, hplacement, heq⟩
    obtain ⟨_, hfound, heq⟩ := Option.map_eq_some_iff.mp heq
    obtain ⟨href, rfl⟩ := Prod.mk.inj heq
    exact ⟨placement, placement_unique hplacement href, hfound⟩
  · rintro ⟨placement, hplacement, hfound⟩
    refine ⟨placement, (mem_placements _).mpr ⟨index, hplacement⟩, ?_⟩
    rw [hfound, placementOf_ref hplacement]
    rfl

theorem lookup_written_field (input : ReconcileInput) {V : Type} (value : PlacementStatus → V)
    (index : Nat) :
    (BTreeMap.collect (input.placements.map fun placement =>
      (placement.vllmServiceRef, value placement)))[childName input.fleet.name index]? =
      (input.placementOf index).map value := by
  have hread := lookup_written input (fun placement => some (value placement)) index
  simp only [Option.map_some, List.filterMap_eq_map'] at hread
  rw [hread]
  cases input.placementOf index <;> rfl

section ReadBack

variable (input) (next : ReconcileInput) (hprev : next.fleet.placements = input.placements)

include hprev

theorem prevPhase_readBack (index : Nat) :
    next.prevPhase[childName input.fleet.name index]? =
      (input.placementOf index).map PlacementStatus.phase := by
  rw [prevPhase, hprev, lookup_written_field]

theorem prevSurplus_readBack (index : Nat) :
    next.prevSurplus[childName input.fleet.name index]? =
      (input.placementOf index).map PlacementStatus.surplusReconciles := by
  rw [prevSurplus, hprev, lookup_written_field]

theorem prevDecided_readBack (index : Nat) :
    next.prevDecided[childName input.fleet.name index]? =
      (input.placementOf index).bind PlacementStatus.decidedOn := by
  rw [prevDecided, hprev, lookup_written input PlacementStatus.decidedOn index]

end ReadBack

/-! ## Two snapshots a fleet cannot tell apart -/

/-- Two snapshots that leave the same healthy candidates and displace alike the
nodes of one fleet's children and placements. -/
structure SeesAlike (fleet : FleetService) (existing : List VllmService)
    (left right : Snapshot) : Prop where
  pinned : ∀ (index : Nat) (node : String),
    (ReconcileInput.mk fleet left existing).current[index]? = some node →
      (node ∈ left.displaced ↔ node ∈ right.displaced)
  placed : ∀ placement ∈ fleet.placements,
    (placement.nodeRef ∈ left.displaced ↔ placement.nodeRef ∈ right.displaced)
  healthy : (ReconcileInput.mk fleet left existing).healthyCandidates =
    (ReconcileInput.mk fleet right existing).healthyCandidates

namespace SeesAlike

variable {fleet : FleetService} {existing : List VllmService} {left right : Snapshot}

theorem pass_eq (halike : SeesAlike fleet existing left right) :
    (ReconcileInput.mk fleet left existing).preemptionPass =
      (ReconcileInput.mk fleet right existing).preemptionPass := by
  have hreplacement : (ReconcileInput.mk fleet left existing).replacement =
      (ReconcileInput.mk fleet right existing).replacement := by
    funext node
    rw [replacement, halike.healthy]
    rfl
  have hbudget : (ReconcileInput.mk fleet left existing).budget =
      (ReconcileInput.mk fleet right existing).budget := by
    have hmoves : (ReconcileInput.mk fleet left existing).inFlightMoves =
        (ReconcileInput.mk fleet right existing).inFlightMoves := by
      refine List.countP_congr fun placement hplacement => ?_
      have hsame := halike.placed placement hplacement
      change isMoveInFlight left.displaced placement = true ↔
        isMoveInFlight right.displaced placement = true
      simp only [isMoveInFlight, hsame]
    rw [budget, hmoves]
    rfl
  rw [preemptionPass, hreplacement, hbudget]
  refine List.foldl_ext _ _ _ fun pass slot hslot => ?_
  have hsame := halike.pinned slot.1 slot.2 ((BTreeMap.mem_toList _ _ _).mp hslot)
  change PreemptionPass.visit left.displaced _ pass slot =
    PreemptionPass.visit right.displaced _ pass slot
  simp only [PreemptionPass.visit, hsame]

theorem slotNodes_eq (halike : SeesAlike fleet existing left right) :
    (ReconcileInput.mk fleet left existing).slotNodes =
      (ReconcileInput.mk fleet right existing).slotNodes := by
  rw [slotNodes, moved, halike.pass_eq, fresh, halike.healthy]
  rfl

theorem placements_eq (halike : SeesAlike fleet existing left right) :
    (ReconcileInput.mk fleet left existing).placements.map PlacementStatus.withoutRecord =
      (ReconcileInput.mk fleet right existing).placements.map PlacementStatus.withoutRecord := by
  have hsort : ∀ placements : List PlacementStatus,
      (placements.insertionSort fun left right => slotKey left ≤ slotKey right).map
        PlacementStatus.withoutRecord =
      (placements.map PlacementStatus.withoutRecord).insertionSort
        fun left right => slotKey left ≤ slotKey right :=
    fun placements => List.map_insertionSort _ _ _ placements fun _ _ _ _ => Iff.rfl
  have happlied : ∀ slot, ((ReconcileInput.mk fleet left existing).appliedPlacement
      slot).withoutRecord =
      ((ReconcileInput.mk fleet right existing).appliedPlacement slot).withoutRecord := by
    intro slot
    rw [appliedPlacement, appliedPlacement, preemptedSlots, preemptedSlots, halike.pass_eq]
    rfl
  rw [placements, placements, hsort, hsort, List.map_append, List.map_append, List.map_map,
    List.map_map, List.map_map, List.map_map, halike.slotNodes_eq]
  congr 2
  exact List.map_congr_left fun slot _ => happlied slot

end SeesAlike

end ReconcileInput

end VllmColdstartOperator
