import VllmColdstartOperator.Guarantees.Phase
import VllmColdstartOperator.Guarantees.Preemption

/-!
# A drain finishes

While the same nodes stay displaced and some survivor stays eligible, the cap
lets a move begin whenever it is not used up by the moves of the last two
reconciles.  Any three reconciles in a row therefore move a cap's worth of
slots, and after three times the number of displaced slots divided by the cap
none is left, whatever the signals and the readiness of the children do.
-/

namespace VllmColdstartOperator

open Foundation Std

/-! ## A drain under a cap -/

section Drained

variable {left moved inFlight : Nat → Nat} {cap : Nat}

/-- What is left falls by the cap in three steps, when what is in flight is what
the last two steps moved. -/
theorem left_le_of_capped (hmoved : ∀ time, min (cap - inFlight time) (left time) ≤ moved time)
    (hleft : ∀ time, left (time + 1) + moved time = left time)
    (hflight : ∀ time, inFlight (time + 2) ≤ moved time + moved (time + 1)) (turns time : Nat)
    (hlate : 3 * turns ≤ time) : left time ≤ left 0 - turns * cap := by
  have hfalls : ∀ time, left (time + 1) ≤ left time := fun time => by
    have := hleft time
    omega
  have hthree : ∀ time, left (time + 3) ≤ left time - cap := by
    intro time
    have hlast := hmoved (time + 2)
    have hpace := hflight time
    have hfirst := hleft time
    have hsecond := hleft (time + 1)
    have hthird := hleft (time + 2)
    simp only [Nat.add_assoc, Nat.reduceAdd] at hsecond hthird
    omega
  have hturns : ∀ turns, left (3 * turns) ≤ left 0 - turns * cap := by
    intro turns
    induction turns with
    | zero => simp
    | succ turns ih =>
        have hturn : left (3 * (turns + 1)) ≤ left (3 * turns) - cap := hthree (3 * turns)
        rw [Nat.succ_mul turns cap]
        omega
  have hlater : left time ≤ left (3 * turns) := antitone_nat_of_succ_le hfalls hlate
  exact hlater.trans (hturns turns)

end Drained

/-! ## The slots left to drain -/

/-- Some candidate of the pool is not displaced and has room for the replica. -/
def Round.HasSurvivor (round : Round) : Prop :=
  ∃ name ∈ (round.snapshot.poolCandidates round.spec.nodePool.selector).map NodeCandidate.name,
    name ∉ round.snapshot.displaced ∧
      hasCapacityFor ((round.snapshot.allocatable round.spec.template.gpu)[name]?).join
        round.spec.template.gpu = true

theorem ReconcileInput.inRange_of_counted_moved {input : ReconcileInput} {index : Nat}
    (hcounted : index ∈ input.countedSlots) (hmoved : index ∈ input.movedSlots) :
    index < input.desired := by
  rw [countedSlots, List.mem_append, List.mem_map, List.mem_map] at hcounted
  rcases hcounted with ⟨slot, hslot, rfl⟩ | ⟨slot, hslot, rfl⟩
  · exact ((mem_slotNodes slot.1 slot.2).mp (List.mem_filter.mp hslot).1).1
  · obtain ⟨hheld, hflight⟩ := List.mem_filter.mp hslot
    obtain ⟨hcurrent, -⟩ := (mem_heldSlots slot.1 slot.2).mp hheld
    obtain ⟨⟨node, hnode, hdisplaced⟩, -⟩ := of_mem_movedSlots hmoved
    rw [hcurrent, Option.some.injEq] at hnode
    subst hnode
    exact absurd hdisplaced (of_decide_eq_true hflight).2

namespace World

variable {world : World} {metadata : ObjectMeta} {round next : Round}

theorem healthyCandidates_ne_nil (world : World) (metadata : ObjectMeta)
    (hsurvivor : round.HasSurvivor) :
    (world.input metadata round).healthyCandidates ≠ [] := by
  obtain ⟨name, hname, hdisplaced, hcapacity⟩ := hsurvivor
  intro hnone
  have hlacks := ReconcileInput.healthyCandidates_eq_nil_iff.mp hnone name hname hdisplaced
  rw [show (world.input metadata round).snapshot = round.snapshot from rfl,
    show (world.input metadata round).gpuRequest = round.spec.template.gpu from rfl,
    hcapacity] at hlacks
  cases hlacks

def leftToDrain (metadata : ObjectMeta) (world : World) (round : Round) : Finset Nat :=
  (Finset.range (world.input metadata round).desired).filter fun index =>
    world.pinDisplaced metadata.name round index = true

theorem mem_leftToDrain (index : Nat) :
    index ∈ leftToDrain metadata world round ↔
      index < (world.input metadata round).desired ∧
        world.pinDisplaced metadata.name round index = true := by
  rw [leftToDrain, Finset.mem_filter, Finset.mem_range]

theorem startedMoves_subset :
    startedMoves metadata world round ⊆ leftToDrain metadata world round := by
  intro index hstarted
  obtain ⟨hrange, hdisplaced, -⟩ := (mem_startedMoves index).mp hstarted
  exact (mem_leftToDrain index).mpr ⟨hrange, hdisplaced⟩

theorem Owned.onDisplaced_eq (howned : world.Owned metadata.name) (round : Round)
    (index : Nat) :
    (world.input metadata round).onDisplaced index =
      world.pinDisplaced metadata.name round index := by
  rw [Bool.eq_iff_iff, ReconcileInput.onDisplaced_iff, pinDisplaced_iff]
  simp only [howned.current_lookup]
  rfl

theorem Owned.started_of_moved (howned : world.Owned metadata.name)
    (hfull : round.IsFull metadata) {index : Nat}
    (hrange : index < (world.input metadata round).desired)
    (hmoved : index ∈ (world.input metadata round).movedSlots) :
    index ∈ startedMoves metadata world round := by
  obtain ⟨⟨before, hcurrent, hdisplaced⟩, node, htarget⟩ := ReconcileInput.of_mem_movedSlots hmoved
  have hbefore := (howned.current_lookup round index).symm.trans hcurrent
  refine (mem_startedMoves index).mpr ⟨hrange,
    (pinDisplaced_iff index).mpr ⟨before, hbefore, hdisplaced⟩, ?_⟩
  rw [howned.reconcile_pin hfull, if_pos hrange, ReconcileInput.pin_of_moved hmoved, htarget,
    hbefore]
  intro hsame
  exact ReconcileInput.target_not_displaced htarget (Option.some.inj hsame ▸ hdisplaced)

/-- Enough moves begin to use up the budget or empty the displaced nodes. -/
theorem Owned.min_le_card_started (howned : world.Owned metadata.name)
    (hfull : round.IsFull metadata) (hsurvivor : round.HasSurvivor) :
    min ((world.input metadata round).cap - (world.input metadata round).inFlightMoves)
        (leftToDrain metadata world round).card ≤
      (startedMoves metadata world round).card := by
  have hdrains : (leftToDrain metadata world round).card =
      (world.input metadata round).displacedInRange.length := by
    have hsame : leftToDrain metadata world round =
        (world.input metadata round).displacedInRange.toFinset := by
      ext index
      rw [mem_leftToDrain, List.mem_toFinset, ReconcileInput.mem_displacedInRange,
        howned.onDisplaced_eq]
    rw [hsame]
    exact List.toFinset_card_of_nodup (List.nodup_range.filter _)
  have hmoves : (world.input metadata round).slotsToMove.toFinset ⊆
      startedMoves metadata world round := by
    intro index hindex
    have hmem := List.mem_toFinset.mp hindex
    have hrange := ReconcileInput.slotsToMove_inRange hmem
    exact howned.started_of_moved hfull hrange ((ReconcileInput.mem_movedSlots_inRange
      (input_isSupported world hfull) hrange).mpr hmem)
  have hlength : (world.input metadata round).slotsToMove.length =
      min ((world.input metadata round).cap - (world.input metadata round).inFlightMoves)
        (world.input metadata round).displacedInRange.length := by
    rw [ReconcileInput.slotsToMove,
      if_neg (healthyCandidates_ne_nil world metadata hsurvivor), List.length_take]
  have hnodup : (world.input metadata round).slotsToMove.Nodup := by
    unfold ReconcileInput.slotsToMove
    split
    · exact List.nodup_nil
    · exact (List.nodup_range.filter _).sublist (List.take_sublist _ _)
  rw [hdrains, ← hlength, ← List.toFinset_card_of_nodup hnodup]
  exact Finset.card_le_card hmoves

theorem Owned.leftToDrain_next (howned : world.Owned metadata.name) (hfull : round.IsFull metadata)
    (hreplicas : next.spec.replicas = round.spec.replicas)
    (hdisplaced : ∀ node, node ∈ next.snapshot.displaced ↔ node ∈ round.snapshot.displaced) :
    leftToDrain metadata (world.reconcile metadata round) next =
      leftToDrain metadata world round \ startedMoves metadata world round := by
  have hdesired : ((world.reconcile metadata round).input metadata next).desired =
      (world.input metadata round).desired :=
    congrArg (fun replicas : Int32 => replicas.toInt.toNat) hreplicas
  ext index
  rw [Finset.mem_sdiff, mem_leftToDrain, mem_leftToDrain, mem_startedMoves, hdesired,
    pinDisplaced_iff, pinDisplaced_iff]
  constructor
  · rintro ⟨hrange, node, hafter, hnode⟩
    rw [hdisplaced] at hnode
    have hpin := howned.reconcile_pin hfull index
    rw [if_pos hrange, hafter] at hpin
    have hbefore : world.pin metadata.name index = some node := by
      by_contra hchanged
      rw [← howned.current_lookup round] at hchanged
      exact ReconcileInput.pin_not_displaced hpin.symm hchanged hnode
    exact ⟨⟨hrange, node, hbefore, hnode⟩, fun hstarted =>
      hstarted.2.2 (hafter.trans hbefore.symm)⟩
  · rintro ⟨⟨hrange, node, hbefore, hnode⟩, hstays⟩
    have hafter : (world.reconcile metadata round).pin metadata.name index =
        world.pin metadata.name index := by
      by_contra hchanged
      exact hstays ⟨hrange, ⟨node, hbefore, hnode⟩, hchanged⟩
    exact ⟨hrange, node, hafter.trans hbefore, (hdisplaced node).mpr hnode⟩

/-! ## The moves in flight -/

theorem StatusAgrees.prevPhase_ne_preempted (hagrees : world.StatusAgrees metadata.name)
    (index : Nat) :
    (world.input metadata round).prevPhase[childName metadata.name index]? ≠
      some "Preempted" := by
  intro hprev
  have hphase := (hagrees.prevPhase hprev).1
  simp [placementPhases] at hphase

theorem StatusAgrees.prevPhase_of_absent (hagrees : world.StatusAgrees metadata.name)
    (howned : world.Owned metadata.name) (index : Nat)
    (habsent : (world.input metadata round).current[index]? = none) :
    (world.input metadata round).prevPhase[childName metadata.name index]? = none := by
  rw [howned.current_lookup] at habsent
  cases hprev : (world.input metadata round).prevPhase[childName metadata.name index]? with
  | none => rfl
  | some phase =>
      obtain ⟨-, placement, -, -, -, hpin⟩ := hagrees.prevPhase hprev
      rw [habsent] at hpin
      cases hpin

theorem Owned.of_written_draining (howned : world.Owned metadata.name) {index : Nat}
    {placement : PlacementStatus}
    (hplacement : (world.input metadata round).placementOf index = some placement)
    (hdraining : placement.phase = "Draining") :
    index < (world.input metadata round).desired ∧
      world.pinDisplaced metadata.name round index = true := by
  unfold ReconcileInput.placementOf at hplacement
  split at hplacement
  · next hrange =>
      obtain ⟨node, -, rfl⟩ := Option.map_eq_some_iff.mp hplacement
      have hpreempted := of_decide_eq_true
        ((placementPhaseFor_draining_iff _ _ _).mp hdraining)
      obtain ⟨before, hcurrent, hdisplaced⟩ :=
        (ReconcileInput.mem_preemptedSlots index).mp hpreempted
      rw [howned.current_lookup] at hcurrent
      exact ⟨hrange, (pinDisplaced_iff index).mpr ⟨before, hcurrent, hdisplaced⟩⟩
  · split at hplacement
    · cases hplacement
    · obtain ⟨node, -, rfl⟩ := Option.map_eq_some_iff.mp hplacement
      have hheld : (world.input metadata round).advancedPhase index false = "Draining" := hdraining
      cases (placementPhaseFor_draining_iff _ _ _).mp hheld

theorem Owned.started_of_released (howned : world.Owned metadata.name)
    (hfull : round.IsFull metadata)
    (hdisplaced : ∀ node, node ∈ next.snapshot.displaced ↔ node ∈ round.snapshot.displaced)
    {slot : Nat × String}
    (hreleased : slot ∈ ((world.reconcile metadata round).input metadata next).released) :
    slot.1 ∈ startedMoves metadata world round := by
  obtain ⟨hcurrent, hreleased⟩ := List.mem_filter.mp hreleased
  obtain ⟨hnode, hprev, -⟩ := of_decide_eq_true hreleased
  have hread := ReconcileInput.prevPhase_readBack (world.input metadata round)
    ((world.reconcile metadata round).input metadata next) (reconcile_placements hfull) slot.1
  obtain ⟨placement, hplacement, hdraining⟩ :=
    Option.map_eq_some_iff.mp (hread.symm.trans hprev)
  obtain ⟨hrange, hbefore⟩ := howned.of_written_draining hplacement hdraining
  refine (mem_startedMoves slot.1).mpr ⟨hrange, hbefore, fun hsame => ?_⟩
  obtain ⟨node, hpin, hleft⟩ := (pinDisplaced_iff slot.1).mp hbefore
  have hafter : (world.reconcile metadata round).pin metadata.name slot.1 = some slot.2 := by
    rw [← howned.reconcile.current_lookup next]
    exact (BTreeMap.mem_toList _ _ _).mp hcurrent
  rw [hsame, hpin, Option.some.injEq] at hafter
  exact hnode ((hdisplaced slot.2).mpr (hafter ▸ hleft))

/-- The moves in flight are those the last two reconciles began. -/
theorem Owned.inFlightMoves_le (howned : world.Owned metadata.name) (hfull : round.IsFull metadata)
    (hnext : next.IsFull metadata)
    (hdisplaced : ∀ node, node ∈ next.snapshot.displaced ↔ node ∈ round.snapshot.displaced)
    {later : Round}
    (hlater : ∀ node, node ∈ later.snapshot.displaced ↔ node ∈ next.snapshot.displaced) :
    ((((world.reconcile metadata round).reconcile metadata next).input metadata
        later).inFlightMoves) ≤
      (startedMoves metadata world round).card +
        (startedMoves metadata (world.reconcile metadata round) next).card := by
  let input := (world.reconcile metadata round).input metadata next
  have hagrees := howned.statusAgrees_reconcile hfull
  have hcounted : (((world.reconcile metadata round).reconcile metadata next).input metadata
      later).inFlightMoves = input.countedSlots.length := by
    rw [ReconcileInput.countedSlots_length, ReconcileInput.inFlightMoves, input_placements,
      reconcile_placements hnext, ReconcileInput.activeReschedules]
    refine List.countP_congr fun placement _ => ?_
    change isMoveInFlight later.snapshot.displaced placement = true ↔
      isMoveInFlight next.snapshot.displaced placement = true
    simp only [isMoveInFlight, hlater]
  have hstarted : input.countedSlots.toFinset ⊆
      startedMoves metadata world round ∪
        startedMoves metadata (world.reconcile metadata round) next := by
    intro index hindex
    have hmem := List.mem_toFinset.mp hindex
    rcases ReconcileInput.countedSlots_cases hagrees.prevPhase_ne_preempted
      (hagrees.prevPhase_of_absent howned.reconcile) hmem with hmoved | hreleased
    · have hrange := ReconcileInput.inRange_of_counted_moved hmem hmoved
      exact Finset.mem_union_right _ (howned.reconcile.started_of_moved hnext hrange hmoved)
    · obtain ⟨slot, hslot, rfl⟩ := List.mem_map.mp hreleased
      exact Finset.mem_union_left _ (howned.started_of_released hfull hdisplaced hslot)
  rw [hcounted, ← List.toFinset_card_of_nodup ReconcileInput.countedSlots_nodup]
  exact (Finset.card_le_card hstarted).trans (Finset.card_union_le _ _)

end World

/-! ## The run -/

/-- Rounds in which the fleet may move all the time: the replicas, the cap and
the displaced nodes stay, and there is a survivor to move to. -/
structure Drains (metadata : ObjectMeta) (cap : Nat) (rounds : Nat → Round) : Prop where
  full : ∀ time, (rounds time).IsFull metadata
  replicas : ∀ time, (rounds (time + 1)).spec.replicas = (rounds time).spec.replicas
  cap : ∀ time, (rounds time).spec.hysteresis.maxConcurrentReschedules.toInt.toNat = cap
  displaced : ∀ time node, node ∈ (rounds (time + 1)).snapshot.displaced ↔
    node ∈ (rounds time).snapshot.displaced
  survivor : ∀ time, (rounds time).HasSurvivor

section Run

variable (metadata : ObjectMeta) (rounds : Nat → Round) (start : World)

def drainRun (time : Nat) : World :=
  run (fun round world => world.reconcile metadata round) rounds start time

def drainsLeft (time : Nat) : Nat :=
  (World.leftToDrain metadata (drainRun metadata rounds start time) (rounds time)).card

variable {metadata rounds start}

theorem drainRun_owned (howned : start.Owned metadata.name) (time : Nat) :
    (drainRun metadata rounds start time).Owned metadata.name := by
  induction time with
  | zero => exact howned
  | succ time ih => exact World.Owned.reconcile ih

theorem drainsLeft_le {cap : Nat} (hdrains : Drains metadata cap rounds)
    (howned : start.Owned metadata.name) (turns time : Nat) (hlate : 3 * turns ≤ time) :
    drainsLeft metadata rounds start time ≤ drainsLeft metadata rounds start 0 - turns * cap := by
  have hrun := @drainRun_owned metadata rounds start howned
  refine @left_le_of_capped (drainsLeft metadata rounds start)
    (fun time => (World.startedMoves metadata (drainRun metadata rounds start time)
      (rounds time)).card)
    (fun time => ((drainRun metadata rounds start time).input metadata
      (rounds time)).inFlightMoves) cap ?_ ?_ ?_ turns time hlate
  · intro time
    have hcap : ((drainRun metadata rounds start time).input metadata (rounds time)).cap = cap :=
      hdrains.cap time
    have hmoved := (hrun time).min_le_card_started (hdrains.full time) (hdrains.survivor time)
    rwa [hcap] at hmoved
  · intro time
    have hnext := (hrun time).leftToDrain_next (hdrains.full time) (hdrains.replicas time)
      (hdrains.displaced time)
    have hleft : drainsLeft metadata rounds start (time + 1) =
        (World.leftToDrain metadata (drainRun metadata rounds start time) (rounds time) \
          World.startedMoves metadata (drainRun metadata rounds start time) (rounds time)).card :=
      congrArg Finset.card hnext
    rw [hleft]
    exact Finset.card_sdiff_add_card_eq_card World.startedMoves_subset
  · intro time
    exact (hrun time).inFlightMoves_le (hdrains.full time) (hdrains.full (time + 1))
      (hdrains.displaced time) (hdrains.displaced (time + 1))

theorem not_degraded_of_drained {time : Nat} (hfull : (rounds time).IsFull metadata)
    (howned : start.Owned metadata.name) (hdrained : drainsLeft metadata rounds start time = 0)
    {status : FleetServiceStatus}
    (hstatus : (drainRun metadata rounds start (time + 1)).status = some status) :
    status.phase ≠ "Degraded" := by
  let world := drainRun metadata rounds start time
  have hwritten : (world.reconcile metadata (rounds time)).status = some status := hstatus
  rw [World.reconcile_status hfull, Option.some.injEq] at hwritten
  have hnone : (world.input metadata (rounds time)).drainAndHold = false := by
    rw [ReconcileInput.drainAndHold, List.any_eq_false]
    intro placement hplacement
    obtain ⟨index, hindex⟩ := (ReconcileInput.mem_placements placement).mp hplacement
    simp only [decide_eq_true_eq, not_and]
    intro hdraining
    have hleft := (drainRun_owned howned time).of_written_draining hindex hdraining
    have hmem := (World.mem_leftToDrain index).mpr hleft
    rw [Finset.card_eq_zero.mp hdrained] at hmem
    simp at hmem
  rw [← hwritten, ReconcileInput.fullStatus, hnone]
  exact (fleetPhaseFor_degraded_iff _ _ _).not.mpr Bool.false_ne_true

end Run

/-- While the replicas, the cap and the displaced nodes stay and a survivor is
there, three reconciles move a cap's worth of slots whatever else changes, so
three times as many reconciles as the cap divides the displaced slots leave none
on a displaced node, and no status written from then on is Degraded. -/
theorem drain_finishes (metadata : ObjectMeta) (cap : Nat) (rounds : Nat → Round)
    (hdrains : Drains metadata cap rounds) (start : World) (howned : start.Owned metadata.name) :
    (∀ turns time, 3 * turns ≤ time →
      drainsLeft metadata rounds start time ≤
        drainsLeft metadata rounds start 0 - turns * cap) ∧
    ∀ turns time, drainsLeft metadata rounds start 0 ≤ turns * cap → 3 * turns ≤ time →
      (∀ index < ((rounds time).spec.replicas).toInt.toNat, ∀ node,
        (drainRun metadata rounds start time).pin metadata.name index = some node →
          node ∉ (rounds time).snapshot.displaced) ∧
      ∀ status, (drainRun metadata rounds start (time + 1)).status = some status →
        status.phase ≠ "Degraded" := by
  have hleft := drainsLeft_le hdrains howned
  refine ⟨hleft, fun turns time henough hlate => ?_⟩
  have hdrained : drainsLeft metadata rounds start time = 0 := by
    have hbound := hleft turns time hlate
    omega
  refine ⟨fun index hrange node hpin hdisplaced => ?_,
    fun status => not_degraded_of_drained (hdrains.full time) howned hdrained⟩
  have hmem := (World.mem_leftToDrain index).mpr
    ⟨hrange, (World.pinDisplaced_iff index).mpr ⟨node, hpin, hdisplaced⟩⟩
  rw [Finset.card_eq_zero.mp hdrained] at hmem
  simp at hmem

namespace Sample

/-- A notice on `a` that stays, and a cap of one. -/
def noticedOnA : Round := round (spec 3 1 1) (snapshot ["a", "b"] ["a"]) []

theorem noticedOnA_hasSurvivor : noticedOnA.HasSurvivor :=
  ⟨"b", by decide, by decide, by decide⟩

theorem noticedOnA_drains : Drains metadata 1 fun _ => noticedOnA where
  full _ := round_isFull rfl (by decide)
  replicas _ := rfl
  cap _ := rfl
  displaced _ _ := Iff.rfl
  survivor _ := noticedOnA_hasSurvivor

/-- Two of the three replicas are on `a`, and six reconciles move both. -/
theorem drain_finishes_sample :
    let start := pinned [(0, "a"), (1, "a"), (2, "b")]
    drainsLeft metadata (fun _ => noticedOnA) start 0 ≤ 2 * 1 ∧
      ∀ index < 3, ∀ node,
        (drainRun metadata (fun _ => noticedOnA) start 6).pin metadata.name index = some node →
          node ∉ noticedOnA.snapshot.displaced := by
  intro start
  have hstart : drainsLeft metadata (fun _ => noticedOnA) start 0 ≤ 2 * 1 := by decide
  exact ⟨hstart, ((drain_finishes metadata 1 _ noticedOnA_drains start
    (pinned_owned (by decide))).2 2 6 hstart (by decide)).1⟩

end Sample

end VllmColdstartOperator
