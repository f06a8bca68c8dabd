import VllmColdstartOperator.FleetController.Positions
import VllmColdstartOperator.Guarantees.Counter

/-!
# The slots the preemption pass moves

The budget is spent in slot order, so the slots in range come before the surplus
ones and the moved ones are the first on displaced nodes.  How many move is the
cap less the moves in flight; which, the order of the slots alone.
-/

namespace VllmColdstartOperator

open Foundation Std

/-- What the preemption pass reads of a NodeState: all but its signals. -/
def NodeState.spotState (state : NodeState) : ObjectMeta × Option SpotStatus :=
  (state.metadata, state.status.map NodeStateStatus.spot)

theorem preemptionNoticeDetected_spotState (state : NodeState) :
    preemptionNoticeDetected state =
      (state.spotState.2.map SpotStatus.preemptionNoticeDetected).getD false := by
  cases hstatus : state.status <;> simp [preemptionNoticeDetected, NodeState.spotState, hstatus]

theorem exists_spotState {states others : List NodeState}
    (hsame : states.map NodeState.spotState = others.map NodeState.spotState) {state : NodeState}
    (hmem : state ∈ states) : ∃ other ∈ others, other.name = state.name ∧
      other.status.isSome = state.status.isSome ∧
      preemptionNoticeDetected other = preemptionNoticeDetected state := by
  have hspot := List.mem_map_of_mem (f := NodeState.spotState) hmem
  rw [hsame, List.mem_map] at hspot
  obtain ⟨other, hother, heq⟩ := hspot
  have hmetadata : other.metadata = state.metadata := congrArg Prod.fst heq
  have hstatus : other.status.map NodeStateStatus.spot = state.status.map NodeStateStatus.spot :=
    congrArg Prod.snd heq
  refine ⟨other, hother, ?_, ?_, ?_⟩
  · rw [NodeState.name, hmetadata, NodeState.name]
  · simpa using congrArg Option.isSome hstatus
  · rw [preemptionNoticeDetected_spotState, heq, preemptionNoticeDetected_spotState]

namespace ReconcileInput

variable {input : ReconcileInput}

def displacedInRange (input : ReconcileInput) : List Nat :=
  (List.range input.desired).filter input.onDisplaced

/-- The slots in range to move: none without a survivor, else the first ones the
cap leaves room for. -/
def slotsToMove (input : ReconcileInput) : List Nat :=
  if input.healthyCandidates = [] then []
  else input.displacedInRange.take (input.cap - input.inFlightMoves)

theorem mem_displacedInRange (index : Nat) :
    index ∈ input.displacedInRange ↔ index < input.desired ∧ input.onDisplaced index = true := by
  rw [displacedInRange, List.mem_filter, List.mem_range]

theorem mem_take_displacedInRange (index taken : Nat) :
    index ∈ input.displacedInRange.take taken ↔
      index ∈ input.displacedInRange ∧ input.displacedBelow index < taken := by
  have hsorted : input.displacedInRange.Pairwise fun left right => id left < id right :=
    List.pairwise_lt_range.filter _
  rw [BTreeMap.mem_take_iff hsorted]
  refine and_congr_right fun hmem => ?_
  obtain ⟨more, hdesired⟩ := Nat.exists_eq_add_of_le
    (Nat.le_of_lt ((mem_displacedInRange index).mp hmem).1)
  have hbelow : (input.displacedInRange.countP fun other => id other < id index) =
      input.displacedBelow index := by
    rw [displacedInRange, hdesired, List.range_add, List.countP_filter, List.countP_append,
      displacedBelow, Nat.count]
    have hlater : ((List.range more).map fun other => index + other).countP
        (fun other => decide (id other < id index) && input.onDisplaced other) = 0 := by
      rw [List.countP_eq_zero]
      simp
    rw [hlater, Nat.add_zero]
    refine List.countP_congr fun other hother => ?_
    simp [List.mem_range.mp hother]
  rw [hbelow]

theorem slotsToMove_inRange {index : Nat} (hmem : index ∈ input.slotsToMove) :
    index < input.desired := by
  unfold slotsToMove at hmem
  split at hmem
  · simp at hmem
  · exact ((mem_displacedInRange index).mp (List.mem_of_mem_take hmem)).1

theorem mem_movedSlots_inRange (hsupported : input.strategy.isSupported = true) {index : Nat}
    (hrange : index < input.desired) : index ∈ input.movedSlots ↔ index ∈ input.slotsToMove := by
  rw [mem_movedSlots_iff, slotsToMove]
  by_cases hhealthy : input.healthyCandidates = []
  · simp [hhealthy, target_of_no_healthy hhealthy]
  · obtain ⟨node, htarget⟩ := target_isSome hsupported hhealthy
    rw [if_neg hhealthy, mem_take_displacedInRange, mem_displacedInRange, htarget]
    simp [hrange, budget]

/-! ## What the moved slots depend on -/

theorem healthyCandidates_eq_nil_iff : input.healthyCandidates = [] ↔
    ∀ name ∈ input.poolCandidates.map NodeCandidate.name, name ∉ input.displaced →
      hasCapacityFor ((input.snapshot.allocatable input.gpuRequest)[name]?).join
        input.gpuRequest = false := by
  have hnames : input.poolCandidates.map NodeCandidate.name =
      input.candidates.map NodeCandidate.name := by
    rw [candidates, List.map_map]
    rfl
  rw [hnames, healthyCandidates]
  simp only [List.filter_eq_nil_iff, List.mem_filter, decide_eq_true_eq, Bool.not_eq_true,
    List.mem_map, and_imp, forall_exists_index, forall_apply_eq_imp_iff₂]

/-- Two reconciles of one pool with the same slots in range on the same nodes, the
same notices and cordons, cap and moves in flight.  The signals, the services of
the cluster, the surplus slots and the drained placements may differ. -/
structure SamePreemption (left right : ReconcileInput) : Prop where
  replicas : left.fleet.spec.replicas = right.fleet.spec.replicas
  current : ∀ index < left.desired, left.current[index]? = right.current[index]?
  selector : left.fleet.spec.nodePool.selector = right.fleet.spec.nodePool.selector
  gpu : left.gpuRequest = right.gpuRequest
  cap : left.cap = right.cap
  inFlight : left.inFlightMoves = right.inFlightMoves
  states : left.snapshot.states.map NodeState.spotState =
    right.snapshot.states.map NodeState.spotState
  nodes : left.snapshot.nodes = right.snapshot.nodes

namespace SamePreemption

variable {left right : ReconcileInput} (hsame : left.SamePreemption right)

include hsame

theorem symm : right.SamePreemption left where
  replicas := hsame.replicas.symm
  current index hrange := by
    have hdesired : right.desired = left.desired := by rw [desired, ← hsame.replicas, desired]
    exact (hsame.current index (hdesired ▸ hrange)).symm
  selector := hsame.selector.symm
  gpu := hsame.gpu.symm
  cap := hsame.cap.symm
  inFlight := hsame.inFlight.symm
  states := hsame.states.symm
  nodes := hsame.nodes.symm

theorem cordoned : left.snapshot.cordoned = right.snapshot.cordoned := by
  rw [Snapshot.cordoned, hsame.nodes, Snapshot.cordoned]

theorem displaced_of {node : String} (hnode : node ∈ left.displaced) :
    node ∈ right.displaced := by
  rw [displaced, Snapshot.mem_displaced, Snapshot.mem_preempted] at hnode ⊢
  rcases hnode with ⟨state, hmem, hnotice, hname⟩ | hcordoned
  · obtain ⟨other, hother, hsameName, -, hsameNotice⟩ := exists_spotState hsame.states hmem
    exact .inl ⟨other, hother, hsameNotice.trans hnotice, hsameName.trans hname⟩
  · exact .inr (hsame.cordoned ▸ hcordoned)

theorem displaced_iff (node : String) : node ∈ left.displaced ↔ node ∈ right.displaced :=
  ⟨hsame.displaced_of, hsame.symm.displaced_of⟩

theorem poolNames_of {name : String}
    (hname : name ∈ left.poolCandidates.map NodeCandidate.name) :
    name ∈ right.poolCandidates.map NodeCandidate.name := by
  rw [poolCandidates, Snapshot.mem_poolNames] at hname ⊢
  rw [← hsame.selector, ← hsame.cordoned, ← hsame.nodes]
  split
  · next hselector =>
      rw [if_pos hselector] at hname
      obtain ⟨⟨state, hmem, hsameName, hstatus⟩, hcordoned⟩ := hname
      obtain ⟨other, hother, hotherName, hotherStatus, -⟩ := exists_spotState hsame.states hmem
      exact ⟨⟨other, hother, hotherName.trans hsameName, hotherStatus.trans hstatus⟩, hcordoned⟩
  · next hselector => rwa [if_neg hselector] at hname

theorem no_healthy_of (hnone : left.healthyCandidates = []) : right.healthyCandidates = [] := by
  rw [healthyCandidates_eq_nil_iff] at hnone ⊢
  intro name hname hdisplaced
  have hcapacity := hnone name (hsame.symm.poolNames_of hname)
    fun hleft => hdisplaced (hsame.displaced_of hleft)
  rwa [Snapshot.allocatable, hsame.gpu, hsame.nodes, ← Snapshot.allocatable] at hcapacity

theorem slotsToMove_eq : left.slotsToMove = right.slotsToMove := by
  have hhealthy : left.healthyCandidates = [] ↔ right.healthyCandidates = [] :=
    ⟨hsame.no_healthy_of, hsame.symm.no_healthy_of⟩
  have hdesired : left.desired = right.desired := by rw [desired, hsame.replicas, desired]
  have hdisplaced : left.displacedInRange = right.displacedInRange := by
    rw [displacedInRange, displacedInRange, ← hdesired]
    refine List.filter_congr fun index hindex => ?_
    rw [onDisplaced, onDisplaced, hsame.current index (List.mem_range.mp hindex)]
    simp only [hsame.displaced_iff]
  rw [slotsToMove, slotsToMove, hdisplaced, hsame.cap, hsame.inFlight]
  simp only [hhealthy]

end SamePreemption

end ReconcileInput

/-! ## What a reconcile moves -/

namespace World

variable {world : World} {metadata : ObjectMeta} {round : Round}

theorem Owned.of_repinned (howned : world.Owned metadata.name) (hfull : round.IsFull metadata)
    {index : Nat} {before after : String} (hbefore : world.pin metadata.name index = some before)
    (hafter : (world.reconcile metadata round).pin metadata.name index = some after)
    (hmoved : before ≠ after) : index ∈ (world.input metadata round).slotsToMove := by
  obtain ⟨hrange, -, hmem, -⟩ := howned.moved_of_changed hfull hbefore hafter hmoved
  exact (ReconcileInput.mem_movedSlots_inRange (input_isSupported world hfull) hrange).mp hmem

theorem Owned.slotsToMove_repinned (howned : world.Owned metadata.name)
    (hfull : round.IsFull metadata) {index : Nat}
    (hmem : index ∈ (world.input metadata round).slotsToMove) :
    ∃ candidate ∈ (world.input metadata round).healthyCandidates,
      (world.reconcile metadata round).pin metadata.name index = some candidate.name ∧
        world.pin metadata.name index ≠ some candidate.name := by
  have hrange := ReconcileInput.slotsToMove_inRange hmem
  have hmoved :=
    (ReconcileInput.mem_movedSlots_inRange (input_isSupported world hfull) hrange).mpr hmem
  obtain ⟨⟨before, hcurrent, hdisplaced⟩, node, htarget⟩ :=
    ReconcileInput.of_mem_movedSlots hmoved
  obtain ⟨candidate, hcandidate, rfl⟩ := ReconcileInput.target_mem htarget
  refine ⟨candidate, hcandidate, ?_, ?_⟩
  · rw [howned.reconcile_pin hfull, if_pos hrange, ReconcileInput.pin_of_moved hmoved, htarget]
  · rw [← howned.current_lookup round, hcurrent]
    intro hsame
    exact ReconcileInput.target_not_displaced htarget (Option.some.inj hsame ▸ hdisplaced)

/-- A displaced slot that is not moved drains on its node. -/
theorem Owned.displaced_kept (howned : world.Owned metadata.name) (hfull : round.IsFull metadata)
    {index : Nat} (hmem : index ∈ (world.input metadata round).displacedInRange)
    (hkept : index ∉ (world.input metadata round).slotsToMove) :
    (world.reconcile metadata round).pin metadata.name index = world.pin metadata.name index ∧
      ∃ placement ∈ (world.reconcile metadata round).placements,
        placement.vllmServiceRef = childName metadata.name index ∧
          world.pin metadata.name index = some placement.nodeRef ∧
          placement.phase = "Draining" := by
  obtain ⟨hrange, hdisplaced⟩ := (ReconcileInput.mem_displacedInRange index).mp hmem
  obtain ⟨node, hcurrent, hnode⟩ := (ReconcileInput.onDisplaced_iff index).mp hdisplaced
  have hmoved : index ∉ (world.input metadata round).movedSlots := fun hmoved =>
    hkept ((ReconcileInput.mem_movedSlots_inRange (input_isSupported world hfull) hrange).mp hmoved)
  have hbefore : world.pin metadata.name index = some node :=
    (howned.current_lookup round index).symm.trans hcurrent
  have hafter : (world.reconcile metadata round).pin metadata.name index = some node := by
    rw [howned.reconcile_pin hfull, if_pos hrange, ReconcileInput.pin_of_kept hmoved hcurrent]
  obtain ⟨placement, hplacement, hnodeRef, hphase⟩ :=
    howned.placementOf_kept hfull hbefore hafter
  refine ⟨hafter.trans hbefore.symm, placement, ?_, ReconcileInput.placementOf_ref hplacement,
    hnodeRef ▸ hbefore, ?_⟩
  · rw [reconcile_placements hfull, ReconcileInput.mem_placements]
    exact ⟨index, hplacement⟩
  · have hdrains : decide (index < (world.input metadata round).desired ∧
        node ∈ round.snapshot.displaced) = true := decide_eq_true ⟨hrange, hnode⟩
    rw [hphase, hdrains]
    rfl

theorem StatusAgrees.counter_le (hagrees : world.StatusAgrees metadata.name)
    (howned : world.Owned metadata.name) (round : Round) :
    (world.input metadata round).fullStatus.activeReschedules.toInt ≤
      max (world.input metadata round).cap (world.input metadata round).inFlightMoves := by
  have hwraps : ∀ count : Nat, (Int32.ofNat count).toInt ≤ count := by
    intro count
    rw [Int32.toInt_ofNat', Int.bmod, show Int32.size = 4294967296 from rfl]
    split <;> omega
  have hcounted := hagrees.activeReschedules_le_released howned round
  have hreleased := @StatusAgrees.released_le world metadata round hagrees howned
  rw [ReconcileInput.budget] at hcounted
  calc (world.input metadata round).fullStatus.activeReschedules.toInt
      ≤ (world.input metadata round).activeReschedules := hwraps _
    _ ≤ (max (world.input metadata round).cap (world.input metadata round).inFlightMoves : Nat) :=
        by omega
    _ = _ := by simp

end World

/-- A full reconcile repins the first displaced slots in range, as many as the
cap leaves room for, each to a survivor; the others drain where they are, and
which move depends on neither the signals nor the surplus slots. -/
theorem preemption_moves_first_displaced (metadata : ObjectMeta) (world : World) (round : Round)
    (howned : world.Owned metadata.name) (hagrees : world.StatusAgrees metadata.name)
    (hfull : round.IsFull metadata) :
    let input := world.input metadata round
    let after := world.reconcile metadata round
    (∀ index before node, world.pin metadata.name index = some before →
      after.pin metadata.name index = some node → before ≠ node → index ∈ input.slotsToMove) ∧
    (∀ index ∈ input.slotsToMove, ∃ candidate ∈ input.healthyCandidates,
      after.pin metadata.name index = some candidate.name ∧
        world.pin metadata.name index ≠ some candidate.name) ∧
    (∀ index ∈ input.displacedInRange, index ∉ input.slotsToMove →
      after.pin metadata.name index = world.pin metadata.name index ∧
        ∃ placement ∈ after.placements,
          placement.vllmServiceRef = childName metadata.name index ∧
            world.pin metadata.name index = some placement.nodeRef ∧
            placement.phase = "Draining") ∧
    (∃ status, after.status = some status ∧
      status.activeReschedules.toInt ≤ max input.cap input.inFlightMoves) ∧
    ∀ other : ReconcileInput, input.SamePreemption other →
      other.slotsToMove = input.slotsToMove :=
  ⟨fun _ _ _ => howned.of_repinned hfull, fun _ => howned.slotsToMove_repinned hfull,
    fun _ => howned.displaced_kept hfull,
    ⟨_, World.reconcile_status hfull, hagrees.counter_le howned round⟩,
    fun _ hsame => hsame.slotsToMove_eq.symm⟩

namespace Sample

def settledOnA : World :=
  (pinned [(0, "a"), (1, "a")]).reconcile metadata (round (spec 2 1 1) (snapshot ["a", "b"] []) [])

/-- With a notice on `a` and a cap of one, slot 0 moves and slot 1 drains. -/
theorem preemption_moves_first_displaced_sample :
    let noticed := round (spec 2 1 1) (snapshot ["a", "b"] ["a"]) []
    let after := settledOnA.reconcile metadata noticed
    after.pin "fleet" 0 ≠ settledOnA.pin "fleet" 0 ∧
      after.pin "fleet" 1 = settledOnA.pin "fleet" 1 := by
  intro noticed after
  have howned : (pinned [(0, "a"), (1, "a")]).Owned metadata.name := pinned_owned (by decide)
  obtain ⟨-, hmoved, hkept, -⟩ := preemption_moves_first_displaced metadata settledOnA noticed
    howned.reconcile (howned.statusAgrees_reconcile (round_isFull rfl (by decide)))
    (round_isFull rfl (by decide))
  have hslots : (settledOnA.input metadata noticed).slotsToMove = [0] := by decide
  obtain ⟨candidate, -, hafter, hbefore⟩ := hmoved 0 (by rw [hslots]; decide)
  have hdisplaced : 1 ∈ (settledOnA.input metadata noticed).displacedInRange := by decide
  exact ⟨fun hsame => hbefore (hsame.symm.trans hafter),
    (hkept 1 hdisplaced (by rw [hslots]; decide)).1⟩

end Sample

end VllmColdstartOperator
