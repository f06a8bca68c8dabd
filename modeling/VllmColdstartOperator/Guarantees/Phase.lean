import VllmColdstartOperator.Guarantees.Census

/-!
# The phase of a fleet

The fleet phase is computed from counts over all placements, and a surplus
placement inside its wait is one of them.  So `Ready` speaks about the desired
slots exactly when the surplus placements that are Ready cannot make up for
desired ones that are not.
-/

namespace VllmColdstartOperator

open Foundation Std

namespace ReconcileInput

variable (input : ReconcileInput)

/-! ## Which placements come out Ready -/

/-- The previous phase and the child's readiness let a placement be Ready. -/
def comesReady (index : Nat) : Bool :=
  let name := childName input.fleet.name index
  let previous := (input.prevPhase[name]?).getD "Pending"
  (input.childReady[name]?).getD false && decide (previous ≠ "Draining") &&
    decide (previous ≠ "Preempted")

def servesInRange (index : Nat) : Bool :=
  match input.current[index]? with
  | some node => decide (node ∉ input.displaced) && input.comesReady index
  | none => false

def servesInSurplus (slot : Nat × String) : Bool :=
  !(input.surplusOutcome slot.1).2 && input.comesReady slot.1

def heldOnDisplaced (index : Nat) : Bool :=
  match input.current[index]? with
  | some node => decide (node ∈ input.displaced) && decide (index ∉ input.movedSlots)
  | none => false

def unreadyInRange : Nat :=
  ((List.range input.desired).filter fun index => !input.servesInRange index).length

def readySurplus : Nat := (input.surplus.filter input.servesInSurplus).length

/-- Surplus placements do not stand in for desired ones. -/
def SurplusCannotStandIn : Prop :=
  (∃ index < input.desired, input.heldOnDisplaced index = true) ∨
    input.unreadyInRange = 0 ∨ input.readySurplus < input.unreadyInRange

variable {input}

theorem advancedPhase_ready_iff (index : Nat) (preemption : Bool) :
    input.advancedPhase index preemption = "Ready" ↔
      preemption = false ∧ input.comesReady index = true := by
  rw [advancedPhase, placementPhaseFor_ready_iff]
  simp only [comesReady, Bool.and_eq_true, decide_eq_true_eq]
  tauto

theorem mem_preemptedSlots_iff {index : Nat} {node : String}
    (hcurrent : input.current[index]? = some node) :
    index ∈ input.preemptedSlots ↔ node ∈ input.displaced := by
  rw [mem_preemptedSlots, hcurrent]
  simp

theorem pin_of_heldOnDisplaced {index : Nat} (hheld : input.heldOnDisplaced index = true) :
    ∃ node ∈ input.displaced, input.current[index]? = some node ∧
      input.pin index = some node := by
  unfold heldOnDisplaced at hheld
  cases hcurrent : input.current[index]? with
  | none => simp [hcurrent] at hheld
  | some node =>
      simp only [hcurrent, Bool.and_eq_true, decide_eq_true_eq] at hheld
      exact ⟨node, hheld.1, rfl, pin_of_kept hheld.2 hcurrent⟩

theorem heldOnDisplaced_iff {index : Nat} :
    input.heldOnDisplaced index = true ↔ ∃ node ∈ input.displaced, input.pin index = some node := by
  constructor
  · intro hheld
    obtain ⟨node, hdisplaced, -, hpin⟩ := pin_of_heldOnDisplaced hheld
    exact ⟨node, hdisplaced, hpin⟩
  · rintro ⟨node, hdisplaced, hpin⟩
    have hcurrent : input.current[index]? = some node := by
      by_contra hchanged
      exact pin_not_displaced hpin hchanged hdisplaced
    have hkept : index ∉ input.movedSlots := by
      intro hmoved
      rw [pin_of_moved hmoved] at hpin
      exact target_not_displaced hpin hdisplaced
    simp [heldOnDisplaced, hcurrent, hdisplaced, hkept]

theorem drainAndHold_iff : input.drainAndHold = true ↔
    ∃ index < input.desired, input.heldOnDisplaced index = true := by
  simp only [drainAndHold, List.any_eq_true, decide_eq_true_eq]
  constructor
  · rintro ⟨placement, hmem, hphase, hdisplaced⟩
    rw [placements_eq, List.mem_append, List.mem_map, List.mem_map] at hmem
    rcases hmem with ⟨⟨index, node⟩, hslot, rfl⟩ | ⟨slot, -, rfl⟩
    · obtain ⟨hrange, hpin⟩ := (mem_slotNodes index node).mp hslot
      exact ⟨index, hrange, heldOnDisplaced_iff.mpr ⟨node, hdisplaced, hpin⟩⟩
    · rw [heldPlacement, advancedPhase, placementPhaseFor_draining_iff] at hphase
      cases hphase
  · rintro ⟨index, hrange, hheld⟩
    obtain ⟨node, hdisplaced, hcurrent, hpin⟩ := pin_of_heldOnDisplaced hheld
    refine ⟨input.appliedPlacement (index, node), ?_, ?_, hdisplaced⟩
    · rw [placements_eq]
      exact List.mem_append_left _ (List.mem_map_of_mem ((mem_slotNodes _ _).mpr ⟨hrange, hpin⟩))
    · rw [appliedPlacement, advancedPhase, placementPhaseFor_draining_iff, decide_eq_true_eq,
        mem_preemptedSlots_iff hcurrent]
      exact hdisplaced

/-! ## Counting the Ready placements -/

/-- A placement in range is Ready exactly for a slot that serves, when a child
with no slot is never Ready. -/
theorem applied_isReady_iff {index : Nat} {node : String}
    (hfresh : input.current[index]? = none →
      input.childReady[childName input.fleet.name index]? = none) :
    (input.appliedPlacement (index, node)).isReady = true ↔
      input.servesInRange index = true := by
  simp only [PlacementStatus.isReady, appliedPlacement, decide_eq_true_eq,
    advancedPhase_ready_iff, decide_eq_false_iff_not]
  cases hcurrent : input.current[index]? with
  | none =>
      have hnone : input.comesReady index = false := by
        simp [comesReady, hfresh hcurrent]
      simp [servesInRange, hcurrent, hnone]
  | some before =>
      rw [mem_preemptedSlots_iff hcurrent]
      simp [servesInRange, hcurrent]

theorem readyReplicas_eq
    (hfresh : ∀ index, input.current[index]? = none →
      input.childReady[childName input.fleet.name index]? = none) :
    input.readyReplicas + input.unreadyInRange = input.desired + input.readySurplus := by
  have happlied : (input.slotNodes.map input.appliedPlacement).countP PlacementStatus.isReady =
      ((List.range input.desired).filter input.servesInRange).length := by
    rw [List.countP_map, slotNodes_eq, List.countP_filterMap, List.countP_eq_length_filter]
    congr 1
    refine List.filter_congr fun index _ => ?_
    cases hpin : input.pin index with
    | none =>
        have hcurrent := current_of_pin_eq_none hpin
        simp [servesInRange, hcurrent]
    | some node =>
        have hready := @applied_isReady_iff input index node (hfresh index)
        rw [Bool.eq_iff_iff]
        simpa using hready
  have hheld : (input.heldSlots.map input.heldPlacement).countP PlacementStatus.isReady =
      input.readySurplus := by
    rw [List.countP_map, heldSlots, List.countP_filter, readySurplus,
      ← List.countP_eq_length_filter]
    refine List.countP_congr fun slot _ => ?_
    have hphase : (input.heldPlacement slot).isReady = true ↔ input.comesReady slot.1 = true := by
      simp only [PlacementStatus.isReady, heldPlacement, decide_eq_true_eq,
        advancedPhase_ready_iff, true_and]
    simp only [Function.comp_apply, servesInSurplus, Bool.and_eq_true, hphase]
    tauto
  have hrange : ((List.range input.desired).filter input.servesInRange).length +
      input.unreadyInRange = input.desired := by
    have hsplit := List.length_eq_length_filter_add (l := List.range input.desired)
      input.servesInRange
    rw [List.length_range] at hsplit
    exact hsplit.symm
  have hready : input.readyReplicas = input.placements.countP PlacementStatus.isReady := rfl
  rw [hready, placements_eq, List.countP_append, happlied, hheld]
  omega

end ReconcileInput

/-! ## The phase against the desired slots -/

/-- What the phase says of the slots below `replicas`. -/
structure FleetServiceStatus.PhaseIsTruthful (status : FleetServiceStatus) (world : World)
    (fleetName : String) (replicas : Nat) (displaced : String → Prop) : Prop where
  degraded : status.phase = "Degraded" ↔
    ∃ index < replicas, ∃ node, world.pin fleetName index = some node ∧ displaced node
  ready : status.phase = "Ready" ↔ status.phase ≠ "Degraded" ∧
    ∀ index < replicas, ∃ placement ∈ status.placements,
      placement.vllmServiceRef = childName fleetName index ∧ placement.phase = "Ready"
  placing : status.phase ≠ "Degraded" → status.phase ≠ "Ready" → status.phase = "Placing"

theorem fleetPhaseFor_degraded_iff (desired ready : Int32) (drainAndHold : Bool) :
    fleetPhaseFor desired ready drainAndHold = "Degraded" ↔ drainAndHold = true := by
  unfold fleetPhaseFor
  cases drainAndHold with
  | true => simp
  | false =>
      simp only [Bool.false_eq_true, if_false, iff_false]
      split
      · decide
      · decide

theorem fleetPhaseFor_ready_iff (desired ready : Int32) (drainAndHold : Bool) :
    fleetPhaseFor desired ready drainAndHold = "Ready" ↔
      drainAndHold = false ∧ desired.toInt ≤ ready.toInt := by
  unfold fleetPhaseFor
  rw [← Int32.le_iff_toInt_le]
  cases drainAndHold with
  | true => simp
  | false =>
      by_cases hready : desired ≤ ready
      · simp [hready]
      · simp [hready]

theorem fleetPhaseFor_placing {desired ready : Int32} {drainAndHold : Bool}
    (hdegraded : fleetPhaseFor desired ready drainAndHold ≠ "Degraded")
    (hready : fleetPhaseFor desired ready drainAndHold ≠ "Ready") :
    fleetPhaseFor desired ready drainAndHold = "Placing" := by
  unfold fleetPhaseFor at hdegraded hready ⊢
  repeat' split
  all_goals simp_all

namespace World

variable {world : World} {metadata : ObjectMeta} {round : Round}

theorem Owned.childReady_of_absent (howned : world.Owned metadata.name) {index : Nat}
    (hnone : (world.input metadata round).current[index]? = none) :
    (world.input metadata round).childReady[childName metadata.name index]? = none := by
  rw [howned.current_lookup, howned.pin_eq_none] at hnone
  rw [howned.childReady_lookup, hnone]
  rfl

theorem SlotsInRange.placements_length_lt (hslots : world.SlotsInRange metadata.name)
    (howned : world.Owned metadata.name) :
    (world.input metadata round).placements.length < 2 ^ 31 := by
  have hlength : (world.input metadata round).placements.length =
      ((world.input metadata round).listedSlots.map Prod.fst).length := by
    have hlisted := congrArg List.length (@ReconcileInput.placements_listed
      (world.input metadata round))
    simpa using hlisted
  have hnodup : ((world.input metadata round).listedSlots.map Prod.fst).Nodup := by
    rw [List.nodup_iff_pairwise_ne, List.pairwise_map]
    exact ReconcileInput.listedSlots_sorted.imp fun hlt => Nat.ne_of_lt hlt
  have hsubset : (world.input metadata round).listedSlots.map Prod.fst ⊆
      List.range (2 ^ 31 - 1) := by
    intro index hmem
    obtain ⟨⟨_, node⟩, hslot, rfl⟩ := List.mem_map.mp hmem
    rw [List.mem_range]
    rcases List.mem_append.mp hslot with hslot | hslot
    · have hrange := ((ReconcileInput.mem_slotNodes _ node).mp hslot).1
      have hbound := @ReconcileInput.desired_lt (world.input metadata round)
      dsimp only
      omega
    · exact hslots.current howned _ node ((ReconcileInput.mem_heldSlots _ node).mp hslot).1
  have hle := (hnodup.subperm hsubset).length_le
  rw [List.length_range] at hle
  omega

theorem Owned.ready_placement_iff (howned : world.Owned metadata.name) {index : Nat}
    (hrange : index < (world.input metadata round).desired) :
    (∃ placement ∈ (world.input metadata round).placements,
      placement.vllmServiceRef = childName metadata.name index ∧ placement.phase = "Ready") ↔
      (world.input metadata round).servesInRange index = true := by
  constructor
  · rintro ⟨placement, hmem, href, hphase⟩
    have hplacement := ReconcileInput.placement_unique hmem href
    rw [ReconcileInput.placementOf, if_pos hrange] at hplacement
    obtain ⟨node, -, rfl⟩ := Option.map_eq_some_iff.mp hplacement
    rw [← ReconcileInput.applied_isReady_iff fun hnone => howned.childReady_of_absent hnone]
    exact decide_eq_true hphase
  · intro hserves
    cases hpin : (world.input metadata round).pin index with
    | none =>
        have hcurrent := ReconcileInput.current_of_pin_eq_none hpin
        simp [ReconcileInput.servesInRange, hcurrent] at hserves
    | some node =>
        refine ⟨(world.input metadata round).appliedPlacement (index, node), ?_, rfl, ?_⟩
        · rw [ReconcileInput.mem_placements]
          exact ⟨index, by rw [ReconcileInput.placementOf, if_pos hrange, hpin]; rfl⟩
        · have hready := @ReconcileInput.applied_isReady_iff (world.input metadata round) index
            node fun hnone => howned.childReady_of_absent hnone
          exact of_decide_eq_true (hready.mpr hserves)

end World

open World ReconcileInput in
/-- The phase a full reconcile writes is the truth about the desired slots
exactly when its Ready surplus placements are too few to stand in for them. -/
theorem fleet_phase_truthful_iff (metadata : ObjectMeta) (world : World) (round : Round)
    (howned : world.Owned metadata.name) (hslots : world.SlotsInRange metadata.name)
    (hreplicas : 0 ≤ round.spec.replicas) (hfull : round.IsFull metadata) :
    ∃ status, (world.reconcile metadata round).status = some status ∧
      (status.PhaseIsTruthful (world.reconcile metadata round) metadata.name
          round.spec.replicas.toInt.toNat round.snapshot.IsDisplaced ↔
        (world.input metadata round).SurplusCannotStandIn) := by
  refine ⟨(world.input metadata round).fullStatus, reconcile_status hfull, ?_⟩
  have hcount := @readyReplicas_eq (world.input metadata round)
    fun index hnone => howned.childReady_of_absent hnone
  have hsmall := @SlotsInRange.placements_length_lt _ _ round hslots howned
  have hready : ((world.input metadata round).fullStatus).phase = "Ready" ↔
      ¬ (∃ index < (world.input metadata round).desired,
          (world.input metadata round).heldOnDisplaced index = true) ∧
        (world.input metadata round).desired ≤ (world.input metadata round).readyReplicas := by
    have hle : (world.input metadata round).readyReplicas ≤
        (world.input metadata round).placements.length := List.countP_le_length
    have hdesired : ((world.input metadata round).desired : Int) = round.spec.replicas.toInt :=
      Int.toNat_of_nonneg (Int32.le_iff_toInt_le.mp hreplicas)
    rw [fullStatus, fleetPhaseFor_ready_iff, int32_ofNat_toInt (by omega), ← drainAndHold_iff,
      Bool.not_eq_true]
    refine and_congr_right fun _ => ?_
    change round.spec.replicas.toInt ≤ _ ↔ _
    omega
  have hdegraded : ((world.input metadata round).fullStatus).phase = "Degraded" ↔
      ∃ index < (world.input metadata round).desired,
        (world.input metadata round).heldOnDisplaced index = true := by
    rw [fullStatus, fleetPhaseFor_degraded_iff, drainAndHold_iff]
  have hserves : (∀ index < (world.input metadata round).desired,
      ∃ placement ∈ (world.input metadata round).placements,
        placement.vllmServiceRef = childName metadata.name index ∧ placement.phase = "Ready") ↔
      (world.input metadata round).unreadyInRange = 0 := by
    rw [unreadyInRange, List.length_eq_zero_iff, List.filter_eq_nil_iff]
    simp only [List.mem_range, Bool.not_eq_true', Bool.not_eq_false]
    exact forall_congr' fun index => imp_congr_right fun hrange => by
      rw [howned.ready_placement_iff hrange]
  have hleft : (∃ index < (world.input metadata round).desired, ∃ node,
      (world.reconcile metadata round).pin metadata.name index = some node ∧
        round.snapshot.IsDisplaced node) ↔
      ∃ index < (world.input metadata round).desired,
        (world.input metadata round).heldOnDisplaced index = true := by
    refine exists_congr fun index => and_congr_right fun hrange => ?_
    rw [howned.reconcile_pin hfull, if_pos hrange, heldOnDisplaced_iff, input_displaced]
    simp only [Snapshot.isDisplaced_iff]
    exact exists_congr fun node => and_comm
  constructor
  · intro htruth
    by_contra hstands
    simp only [SurplusCannotStandIn, not_or, Nat.not_lt] at hstands
    obtain ⟨hheld, hunready, hsurplus⟩ := hstands
    have hphase := hready.mpr ⟨hheld, by omega⟩
    exact hunready (hserves.mp (htruth.ready.mp hphase).2)
  · intro hcannot
    refine ⟨hdegraded.trans hleft.symm, ?_, fleetPhaseFor_placing⟩
    refine Iff.trans ?_ (and_congr hdegraded.not hserves).symm
    rw [hready]
    refine and_congr_right fun hheld => ?_
    rcases hcannot with hdrain | hcannot
    · exact absurd hdrain hheld
    · omega

namespace Sample

/-- Slot 0 is not Ready; slot 1, above the one replica asked for, still is. -/
def standIn : World := pinned [(0, "a"), (1, "a")]

def standInRound : Round := round (spec 1 2 1) (snapshot ["a"] []) ["fleet-1"]

theorem fleet_phase_truthful_iff_sample :
    ∃ status, (standIn.reconcile metadata standInRound).status = some status ∧
      (status.PhaseIsTruthful (standIn.reconcile metadata standInRound) metadata.name
          standInRound.spec.replicas.toInt.toNat standInRound.snapshot.IsDisplaced ↔
        (standIn.input metadata standInRound).SurplusCannotStandIn) :=
  fleet_phase_truthful_iff metadata standIn standInRound (pinned_owned (by decide))
    (pinned_slotsInRange (by decide)) (by decide) (round_isFull rfl (by decide))

/-- The status says Ready with the only desired replica Pending. -/
theorem fleet_phase_counterexample :
    ∃ status, (standIn.reconcile metadata standInRound).status = some status ∧
      status.phase = "Ready" ∧
      (∃ placement ∈ status.placements,
        placement.vllmServiceRef = childName metadata.name 0 ∧ placement.phase = "Pending") ∧
      ¬ status.PhaseIsTruthful (standIn.reconcile metadata standInRound) metadata.name
        standInRound.spec.replicas.toInt.toNat standInRound.snapshot.IsDisplaced := by
  have hfull : standInRound.IsFull metadata := round_isFull rfl (by decide)
  refine ⟨_, World.reconcile_status hfull, by decide, by decide, fun htruth => ?_⟩
  obtain ⟨placement, hmem, href, hphase⟩ :=
    (htruth.ready.mp (by decide)).2 0 (by decide)
  have hnone : ∀ placement ∈ (standIn.input metadata standInRound).placements,
      placement.vllmServiceRef = childName metadata.name 0 → placement.phase ≠ "Ready" := by
    decide
  exact hnone placement hmem href hphase

end Sample

end VllmColdstartOperator
