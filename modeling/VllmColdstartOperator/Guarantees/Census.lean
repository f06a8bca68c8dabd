import VllmColdstartOperator.FleetController.World

/-!
# The status against the children

What a full reconcile writes about the fleet is a count of the children that
exist once its calls are made: one placement for each child, in slot order, each
in one of five phases, and four numbers that partition them.
-/

namespace VllmColdstartOperator

open Foundation Std

/-! ## The phases of a placement -/

def PlacementStatus.isReady (placement : PlacementStatus) : Bool := placement.phase = "Ready"

def PlacementStatus.isWarming (placement : PlacementStatus) : Bool :=
  placement.phase = "Pending" ∨ placement.phase = "Warming"

def PlacementStatus.isMoving (placement : PlacementStatus) : Bool :=
  placement.phase = "Draining" ∨ placement.phase = "Rescheduling"

theorem countP_phases {placements : List PlacementStatus}
    (hphases : ∀ placement ∈ placements, placement.phase ∈ placementPhases) :
    placements.countP PlacementStatus.isReady + placements.countP PlacementStatus.isWarming +
      placements.countP PlacementStatus.isMoving = placements.length := by
  induction placements with
  | nil => rfl
  | cons placement placements ih =>
      have hrest := ih fun other hother => hphases other (List.mem_cons_of_mem _ hother)
      have hphase := hphases placement List.mem_cons_self
      simp only [List.countP_cons, List.length_cons, PlacementStatus.isReady,
        PlacementStatus.isWarming, PlacementStatus.isMoving]
      simp only [placementPhases, List.mem_cons, List.not_mem_nil, or_false] at hphase
      rcases hphase with hphase | hphase | hphase | hphase | hphase
      all_goals
        simp [hphase]
        omega

/-! ## Placements in slot order -/

namespace ReconcileInput

variable {input : ReconcileInput}

theorem current_le_usizeMax {index : Nat} {node : String}
    (hcurrent : input.current[index]? = some node) : index ≤ usizeMax := by
  have hmem := BTreeMap.mem_of_lookup_collect hcurrent
  obtain ⟨child, -, hpin⟩ := List.mem_filterMap.mp hmem
  obtain ⟨slot, hslot, hnode⟩ := Option.bind_eq_some_iff.mp hpin
  obtain ⟨_, -, heq⟩ := Option.bind_eq_some_iff.mp hnode
  cases heq
  obtain ⟨⟨_, suffix⟩, -, hsuffix⟩ := Option.bind_eq_some_iff.mp hslot
  exact parseUsize_le hsuffix

def listedSlots (input : ReconcileInput) : List (Nat × String) :=
  input.slotNodes ++ input.heldSlots

theorem heldSlots_sorted :
    input.heldSlots.Pairwise fun left right => left.1 < right.1 :=
  ((BTreeMap.toList_sorted input.current).filter _).filter _

theorem listedSlots_sorted :
    input.listedSlots.Pairwise fun left right => left.1 < right.1 := by
  refine List.pairwise_append.mpr ⟨slotNodes_sorted, heldSlots_sorted, ?_⟩
  intro left hleft right hright
  have hrange := ((mem_slotNodes left.1 left.2).mp hleft).1
  have hbeyond := ((mem_heldSlots right.1 right.2).mp hright).2.1
  omega

theorem listedSlots_le {slot : Nat × String} (hslot : slot ∈ input.listedSlots) :
    slot.1 ≤ usizeMax := by
  rcases List.mem_append.mp hslot with hslot | hslot
  · have hrange := ((mem_slotNodes slot.1 slot.2).mp hslot).1
    have hlt := @desired_lt input
    unfold usizeMax
    omega
  · exact current_le_usizeMax ((mem_heldSlots slot.1 slot.2).mp hslot).1

theorem slotKey_of_ref {placement : PlacementStatus} {index : Nat} (hle : index ≤ usizeMax)
    (href : placement.vllmServiceRef = childName input.fleet.name index) :
    slotKey placement = index := by
  rw [slotKey, href, slotIndexOf_childName, if_pos hle, Option.getD_some]

/-- The two passes append in slot order, so sorting changes nothing. -/
theorem placements_eq : input.placements =
    input.slotNodes.map input.appliedPlacement ++ input.heldSlots.map input.heldPlacement := by
  rw [placements]
  apply List.Pairwise.insertionSort_eq
  have happlied : ∀ slot ∈ input.slotNodes, slotKey (input.appliedPlacement slot) = slot.1 :=
    fun slot hslot => slotKey_of_ref (listedSlots_le (List.mem_append_left _ hslot)) rfl
  have hheld : ∀ slot ∈ input.heldSlots, slotKey (input.heldPlacement slot) = slot.1 :=
    fun slot hslot => slotKey_of_ref (listedSlots_le (List.mem_append_right _ hslot)) rfl
  rw [List.pairwise_append, List.pairwise_map, List.pairwise_map]
  obtain ⟨hleft, hright, hcross⟩ := List.pairwise_append.mp (@listedSlots_sorted input)
  refine ⟨hleft.imp_of_mem ?_, hright.imp_of_mem ?_, ?_⟩
  · intro left right hmem hmem' hlt
    rw [happlied left hmem, happlied right hmem']
    exact Nat.le_of_lt hlt
  · intro left right hmem hmem' hlt
    rw [hheld left hmem, hheld right hmem']
    exact Nat.le_of_lt hlt
  · intro first hfirst second hsecond
    obtain ⟨left, hmem, rfl⟩ := List.mem_map.mp hfirst
    obtain ⟨right, hmem', rfl⟩ := List.mem_map.mp hsecond
    rw [happlied left hmem, hheld right hmem']
    exact Nat.le_of_lt (hcross left hmem right hmem')

theorem placements_listed : input.placements.map
    (fun placement => (placement.vllmServiceRef, placement.nodeRef)) =
      input.listedSlots.map fun slot => (childName input.fleet.name slot.1, slot.2) := by
  rw [placements_eq, listedSlots, List.map_append, List.map_append, List.map_map, List.map_map]
  rfl

theorem advancedPhase_mem (index : Nat) (preemption : Bool) :
    input.advancedPhase index preemption ∈ placementPhases :=
  placementPhaseFor_mem _ _ _

theorem placements_phases : ∀ placement ∈ input.placements, placement.phase ∈ placementPhases := by
  intro placement hmem
  rw [placements_eq, List.mem_append, List.mem_map, List.mem_map] at hmem
  rcases hmem with ⟨slot, -, rfl⟩ | ⟨slot, -, rfl⟩
  · exact advancedPhase_mem slot.1 _
  · exact advancedPhase_mem slot.1 false

theorem activeReschedules_le :
    input.activeReschedules ≤ input.placements.countP PlacementStatus.isMoving := by
  refine List.countP_mono_left fun placement _ hmove => ?_
  simp only [isMoveInFlight, decide_eq_true_eq] at hmove
  simpa [PlacementStatus.isMoving] using hmove.1

end ReconcileInput

/-! ## The census -/

/-- A status that describes the children of a world. -/
structure FleetServiceStatus.IsCensus (status : FleetServiceStatus) (world : World)
    (fleetName : String) : Prop where
  /-- The placements are the children, each with its node. -/
  listed : ∀ name node,
    (∃ placement ∈ status.placements,
      placement.vllmServiceRef = name ∧ placement.nodeRef = node) ↔
    ∃ child : VllmService, world.children[name]? = some child ∧ child.spec.nodeName = some node
  /-- One placement for each slot, in increasing slot order. -/
  ordered : ∃ indices : List Nat, indices.Pairwise (· < ·) ∧
    status.placements.map PlacementStatus.vllmServiceRef = indices.map (childName fleetName)
  counted : status.replicas = Int32.ofNat status.placements.length
  phases : ∀ placement ∈ status.placements, placement.phase ∈ placementPhases
  partitioned : status.readyReplicas + status.warmingReplicas +
    Int32.ofNat (status.placements.countP PlacementStatus.isMoving) = status.replicas
  /-- While the number of placements fits the counters, these are exact. -/
  exact : status.placements.length < 2 ^ 31 →
    status.replicas.toInt = status.placements.length ∧
      status.readyReplicas.toInt + status.warmingReplicas.toInt +
        status.placements.countP PlacementStatus.isMoving = status.replicas.toInt ∧
      status.activeReschedules.toInt ≤ status.placements.countP PlacementStatus.isMoving

namespace World

variable {world : World} {metadata : ObjectMeta} {round : Round}

theorem Owned.mem_listedSlots (howned : world.Owned metadata.name)
    (hfull : round.IsFull metadata) (index : Nat) (node : String) :
    (index, node) ∈ (world.input metadata round).listedSlots ↔
      (world.reconcile metadata round).pin metadata.name index = some node := by
  rw [howned.reconcile_pin hfull, ReconcileInput.listedSlots, List.mem_append,
    ReconcileInput.mem_slotNodes, ReconcileInput.mem_heldSlots, howned.current_lookup]
  by_cases hrange : index < (world.input metadata round).desired
  · simp [hrange]
  · cases houtcome : ((world.input metadata round).surplusOutcome index).2 with
    | true => simp [hrange]
    | false => simp [hrange]

theorem Owned.pin_iff_child {fleetName : String} (howned : world.Owned fleetName)
    (name node : String) :
    (∃ index, childName fleetName index = name ∧ world.pin fleetName index = some node) ↔
      ∃ child : VllmService, world.children[name]? = some child ∧
        child.spec.nodeName = some node := by
  constructor
  · rintro ⟨index, rfl, hpin⟩
    exact Option.bind_eq_some_iff.mp hpin
  · rintro ⟨child, hchild, hnode⟩
    obtain ⟨index, -, rfl, -⟩ := howned name child hchild
    exact ⟨index, rfl, Option.bind_eq_some_iff.mpr ⟨child, hchild, hnode⟩⟩

end World

open World ReconcileInput in
/-- The status a full reconcile writes is a census of the children it leaves. -/
theorem status_is_census (metadata : ObjectMeta) (world : World) (round : Round)
    (howned : world.Owned metadata.name) (hfull : round.IsFull metadata) :
    ∃ status, (world.reconcile metadata round).status = some status ∧
      status.IsCensus (world.reconcile metadata round) metadata.name := by
  refine ⟨(world.input metadata round).fullStatus, reconcile_status hfull, ?_⟩
  have hphases := @placements_phases (world.input metadata round)
  have hcount := countP_phases hphases
  have hmoving := @activeReschedules_le (world.input metadata round)
  have hlisted := @placements_listed (world.input metadata round)
  constructor
  · intro name node
    rw [← howned.reconcile.pin_iff_child]
    have hmem : (∃ placement ∈ (world.input metadata round).placements,
        placement.vllmServiceRef = name ∧ placement.nodeRef = node) ↔
        (name, node) ∈ (world.input metadata round).placements.map
          fun placement => (placement.vllmServiceRef, placement.nodeRef) := by
      simp
    refine hmem.trans ?_
    rw [hlisted, List.mem_map]
    constructor
    · rintro ⟨⟨index, held⟩, hslot, heq⟩
      obtain ⟨rfl, rfl⟩ := Prod.mk.inj heq
      exact ⟨index, rfl, (howned.mem_listedSlots hfull index held).mp hslot⟩
    · rintro ⟨index, rfl, hpin⟩
      exact ⟨(index, node), (howned.mem_listedSlots hfull index node).mpr hpin, rfl⟩
  · refine ⟨(world.input metadata round).listedSlots.map Prod.fst,
      List.pairwise_map.mpr listedSlots_sorted, ?_⟩
    have hrefs := congrArg (List.map Prod.fst) hlisted
    rw [List.map_map, List.map_map] at hrefs
    rw [List.map_map]
    exact hrefs
  · rfl
  · exact hphases
  · change Int32.ofNat _ + Int32.ofNat _ + Int32.ofNat _ = Int32.ofNat _
    rw [← Int32.ofNat_add, ← Int32.ofNat_add]
    exact congrArg Int32.ofNat hcount
  · intro hsmall
    have hready : (world.input metadata round).readyReplicas =
        (world.input metadata round).placements.countP PlacementStatus.isReady := rfl
    have hwarming : (world.input metadata round).warmingReplicas =
        (world.input metadata round).placements.countP PlacementStatus.isWarming := rfl
    have hlength : (world.input metadata round).placements.length < 2 ^ 31 := hsmall
    simp only [fullStatus]
    rw [int32_ofNat_toInt hlength, int32_ofNat_toInt (by omega), int32_ofNat_toInt (by omega),
      int32_ofNat_toInt (by omega)]
    omega

namespace Sample

theorem status_is_census_sample :
    ∃ status, ((pinned [(0, "a"), (1, "a")]).reconcile metadata
        (round (spec 1 2 1) (snapshot ["a"] []) [])).status = some status ∧
      status.IsCensus ((pinned [(0, "a"), (1, "a")]).reconcile metadata
        (round (spec 1 2 1) (snapshot ["a"] []) [])) metadata.name :=
  status_is_census metadata _ _ (pinned_owned (by decide)) (round_isFull rfl (by decide))

end Sample

end VllmColdstartOperator
