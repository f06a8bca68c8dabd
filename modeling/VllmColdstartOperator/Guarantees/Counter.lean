import VllmColdstartOperator.Foundation.Runs
import VllmColdstartOperator.Guarantees.Census
import VllmColdstartOperator.Guarantees.InFlight

/-!
# The published counter of reschedules

`activeReschedules` counts the placements draining or rescheduling on nodes that
are not displaced in this reconcile.  A move enters it through the budget; a
drain-and-hold placement enters it when its node is no longer displaced, and no
budget bounds those.
-/

namespace VllmColdstartOperator

open Foundation Std

namespace ReconcileInput

variable {input : ReconcileInput}

/-- A child that stays on a node not displaced now, last written draining. -/
def isReleased (input : ReconcileInput) (slot : Nat × String) : Bool :=
  slot.2 ∉ input.displaced ∧
    input.prevPhase[childName input.fleet.name slot.1]? = some "Draining" ∧
    (slot.1 < input.desired ∨ (input.surplusOutcome slot.1).2 = false)

def released (input : ReconcileInput) : List (Nat × String) :=
  input.current.toList.filter input.isReleased

/-! ## What enters the counter -/

def countedSlots (input : ReconcileInput) : List Nat :=
  (input.slotNodes.filter fun slot =>
      isMoveInFlight input.displaced (input.appliedPlacement slot)).map Prod.fst ++
    (input.heldSlots.filter fun slot =>
      isMoveInFlight input.displaced (input.heldPlacement slot)).map Prod.fst

theorem countedSlots_length : input.countedSlots.length = input.activeReschedules := by
  rw [activeReschedules, placements_eq, List.countP_append, List.countP_map, List.countP_map,
    List.countP_eq_length_filter, List.countP_eq_length_filter, countedSlots,
    List.length_append, List.length_map, List.length_map]
  rfl

theorem countedSlots_nodup : input.countedSlots.Nodup := by
  have hsublist : input.countedSlots.Sublist (input.listedSlots.map Prod.fst) := by
    rw [countedSlots, listedSlots, List.map_append]
    exact (List.filter_sublist.map _).append (List.filter_sublist.map _)
  refine hsublist.nodup ?_
  rw [List.nodup_iff_pairwise_ne, List.pairwise_map]
  exact listedSlots_sorted.imp fun hlt => Nat.ne_of_lt hlt

theorem inFlight_phase {index : Nat}
    (hphase : input.advancedPhase index false = "Draining" ∨
      input.advancedPhase index false = "Rescheduling") :
    input.prevPhase[childName input.fleet.name index]? = some "Draining" ∨
      input.prevPhase[childName input.fleet.name index]? = some "Preempted" := by
  have hstep : ∀ (phase : String) (ready : Bool), placementPhaseFor phase ready false =
      if phase = "Draining" ∨ phase = "Preempted" then "Rescheduling"
      else if ready then "Ready" else if phase = "Ready" then "Warming" else "Pending" :=
    fun _ _ => rfl
  rw [advancedPhase, hstep] at hphase
  by_cases hprev : (input.prevPhase[childName input.fleet.name index]?).getD "Pending" =
      "Draining" ∨
      (input.prevPhase[childName input.fleet.name index]?).getD "Pending" = "Preempted"
  · cases hlookup : input.prevPhase[childName input.fleet.name index]? with
    | none => simp [hlookup] at hprev
    | some phase => simpa [hlookup] using hprev
  · rw [if_neg hprev] at hphase
    exfalso
    revert hphase
    repeat' split
    all_goals simp

theorem countedSlots_cases
    (hnone : ∀ index, input.prevPhase[childName input.fleet.name index]? ≠ some "Preempted")
    (hfresh : ∀ index, input.current[index]? = none →
      input.prevPhase[childName input.fleet.name index]? = none)
    {index : Nat} (hmem : index ∈ input.countedSlots) :
    index ∈ input.movedSlots ∨ index ∈ input.released.map Prod.fst := by
  rw [countedSlots, List.mem_append, List.mem_map, List.mem_map] at hmem
  rcases hmem with ⟨⟨slot, node⟩, hslot, rfl⟩ | ⟨⟨slot, node⟩, hslot, rfl⟩
  · obtain ⟨hslot, hflight⟩ := List.mem_filter.mp hslot
    obtain ⟨hrange, hpin⟩ := (mem_slotNodes slot node).mp hslot
    obtain ⟨hphase, hdisplaced⟩ :
        (input.advancedPhase slot (decide (slot ∈ input.preemptedSlots)) = "Draining" ∨
          input.advancedPhase slot (decide (slot ∈ input.preemptedSlots)) = "Rescheduling") ∧
        node ∉ input.displaced := of_decide_eq_true hflight
    by_cases hmoved : slot ∈ input.movedSlots
    · exact .inl hmoved
    right
    have hpreempted : slot ∉ input.preemptedSlots := by
      intro hpreempted
      obtain ⟨before, hcurrent, hbefore⟩ := (mem_preemptedSlots slot).mp hpreempted
      rw [pin_of_kept hmoved hcurrent, Option.some.injEq] at hpin
      exact hdisplaced (hpin ▸ hbefore)
    rw [decide_eq_false hpreempted] at hphase
    have hdraining := (inFlight_phase hphase).resolve_right (hnone slot)
    cases hcurrent : input.current[slot]? with
    | none => simp [hfresh slot hcurrent] at hdraining
    | some before =>
        have hsame : before = node := by
          rw [pin_of_kept hmoved hcurrent] at hpin
          exact Option.some.inj hpin
        subst hsame
        refine List.mem_map.mpr ⟨(slot, before), List.mem_filter.mpr ⟨?_, ?_⟩, rfl⟩
        · exact (BTreeMap.mem_toList _ _ _).mpr hcurrent
        · exact decide_eq_true ⟨hdisplaced, hdraining, .inl hrange⟩
  · obtain ⟨hslot, hflight⟩ := List.mem_filter.mp hslot
    obtain ⟨hcurrent, -, hheld⟩ := (mem_heldSlots slot node).mp hslot
    obtain ⟨hphase, hdisplaced⟩ :
        (input.advancedPhase slot false = "Draining" ∨
          input.advancedPhase slot false = "Rescheduling") ∧
        node ∉ input.displaced := of_decide_eq_true hflight
    have hdraining := (inFlight_phase hphase).resolve_right (hnone slot)
    right
    refine List.mem_map.mpr ⟨(slot, node), List.mem_filter.mpr ⟨?_, ?_⟩, rfl⟩
    · exact (BTreeMap.mem_toList _ _ _).mpr hcurrent
    · exact decide_eq_true ⟨hdisplaced, hdraining, .inr hheld⟩

theorem activeReschedules_le_of_released
    (hnone : ∀ index, input.prevPhase[childName input.fleet.name index]? ≠ some "Preempted")
    (hfresh : ∀ index, input.current[index]? = none →
      input.prevPhase[childName input.fleet.name index]? = none) :
    input.activeReschedules ≤ input.budget + input.released.length := by
  have hsubset : input.countedSlots ⊆ input.movedSlots ++ input.released.map Prod.fst := by
    intro index hmem
    rw [List.mem_append]
    exact countedSlots_cases hnone hfresh hmem
  have hlength := (countedSlots_nodup.subperm hsubset).length_le
  have hmoved := @movedSlots_length_le input
  rw [countedSlots_length, List.length_append, List.length_map] at hlength
  omega

/-- Every released placement is counted, so a reconcile that releases more than
the cap publishes more than the cap. -/
theorem released_le_activeReschedules :
    input.released.length ≤ input.activeReschedules := by
  have hnodup : (input.released.map Prod.fst).Nodup :=
    (List.filter_sublist.map _).nodup (BTreeMap.keys_nodup _)
  rw [← List.length_map Prod.fst, ← List.toFinset_card_of_nodup hnodup]
  refine @card_le_countP input.fleet.name _ input.placements _ fun index hindex => ?_
  obtain ⟨⟨slot, node⟩, hslot, rfl⟩ := List.mem_map.mp (List.mem_toFinset.mp hindex)
  obtain ⟨hcurrent, hreleased⟩ := List.mem_filter.mp hslot
  obtain ⟨hdisplaced, hprev, hstays⟩ := of_decide_eq_true hreleased
  have hlookup := (BTreeMap.mem_toList _ _ _).mp hcurrent
  have hphase : input.advancedPhase slot false = "Rescheduling" := by
    rw [advancedPhase, hprev]
    rfl
  have hnotMoved : slot ∉ input.movedSlots := by
    intro hmoved
    obtain ⟨⟨held, hheld, hbefore⟩, -⟩ := of_mem_movedSlots hmoved
    rw [hlookup, Option.some.injEq] at hheld
    exact hdisplaced (hheld ▸ hbefore)
  by_cases hrange : slot < input.desired
  · have hpreempted : slot ∉ input.preemptedSlots := by
      rw [mem_preemptedSlots, hlookup]
      simpa using hdisplaced
    refine ⟨input.appliedPlacement (slot, node), ?_, rfl, decide_eq_true ⟨.inr ?_, hdisplaced⟩⟩
    · rw [mem_placements]
      exact ⟨slot, by rw [placementOf, if_pos hrange, pin_of_kept hnotMoved hlookup]; rfl⟩
    · rw [appliedPlacement, decide_eq_false hpreempted]
      exact hphase
  · have hheld := hstays.resolve_left hrange
    refine ⟨input.heldPlacement (slot, node), ?_, rfl, decide_eq_true ⟨.inr hphase, hdisplaced⟩⟩
    rw [mem_placements]
    exact ⟨slot, by simp [placementOf, hrange, hheld, hlookup]⟩

end ReconcileInput

namespace World

variable {world : World} {metadata : ObjectMeta} {round : Round}

/-! ## The last status and the children -/

/-- Every placement of the last status is a child on its node, in a phase the
controller writes. -/
def StatusAgrees (world : World) (fleetName : String) : Prop :=
  ∀ placement ∈ world.placements, placement.phase ∈ placementPhases ∧
    ∃ index, placement.vllmServiceRef = childName fleetName index ∧
      world.pin fleetName index = some placement.nodeRef

theorem Owned.statusAgrees_reconcile (howned : world.Owned metadata.name)
    (hfull : round.IsFull metadata) :
    (world.reconcile metadata round).StatusAgrees metadata.name := by
  intro placement hmem
  rw [reconcile_placements hfull] at hmem
  refine ⟨ReconcileInput.placements_phases placement hmem, ?_⟩
  have hpair := List.mem_map_of_mem
    (f := fun placement : PlacementStatus => (placement.vllmServiceRef, placement.nodeRef)) hmem
  rw [ReconcileInput.placements_listed] at hpair
  obtain ⟨⟨index, node⟩, hslot, heq⟩ := List.mem_map.mp hpair
  obtain ⟨href, hnode⟩ := Prod.mk.inj heq
  refine ⟨index, href.symm, ?_⟩
  rw [← hnode]
  exact (howned.mem_listedSlots hfull index node).mp hslot

theorem StatusAgrees.prevPhase (hagrees : world.StatusAgrees metadata.name) {index : Nat}
    {phase : String}
    (hprev : (world.input metadata round).prevPhase[childName metadata.name index]? =
      some phase) :
    phase ∈ placementPhases ∧ ∃ placement ∈ world.placements,
      placement.vllmServiceRef = childName metadata.name index ∧ placement.phase = phase ∧
        world.pin metadata.name index = some placement.nodeRef := by
  have hpair := BTreeMap.mem_of_lookup_collect hprev
  obtain ⟨placement, hmem, heq⟩ := List.mem_map.mp hpair
  obtain ⟨href, rfl⟩ := Prod.mk.inj heq
  obtain ⟨hphase, slot, hslot, hpin⟩ := hagrees placement hmem
  have hsame : slot = index := childName_injective _ (hslot.symm.trans href)
  subst hsame
  exact ⟨hphase, placement, hmem, href, rfl, hpin⟩

theorem StatusAgrees.released_le (hagrees : world.StatusAgrees metadata.name)
    (howned : world.Owned metadata.name) :
    (world.input metadata round).released.length ≤
      (world.input metadata round).inFlightMoves := by
  have hnodup : ((world.input metadata round).released.map Prod.fst).Nodup :=
    (List.filter_sublist.map _).nodup (BTreeMap.keys_nodup _)
  rw [← List.length_map Prod.fst, ← List.toFinset_card_of_nodup hnodup]
  refine @card_le_countP metadata.name _ world.placements _ fun index hindex => ?_
  obtain ⟨⟨_, node⟩, hslot, rfl⟩ := List.mem_map.mp (List.mem_toFinset.mp hindex)
  obtain ⟨hcurrent, hreleased⟩ := List.mem_filter.mp hslot
  obtain ⟨hdisplaced, hprev, -⟩ := of_decide_eq_true hreleased
  obtain ⟨-, placement, hmem, href, hphase, hpin⟩ := hagrees.prevPhase hprev
  have hnode : node = placement.nodeRef := by
    have hlookup := (BTreeMap.mem_toList _ _ _).mp hcurrent
    rw [howned.current_lookup, hpin, Option.some.injEq] at hlookup
    exact hlookup.symm
  exact ⟨placement, hmem, href, decide_eq_true ⟨.inl hphase, hnode ▸ hdisplaced⟩⟩

/-- Beside the moves it starts a reconcile counts what it releases. -/
theorem StatusAgrees.activeReschedules_le_released (hagrees : world.StatusAgrees metadata.name)
    (howned : world.Owned metadata.name) (round : Round) :
    (world.input metadata round).activeReschedules ≤
      (world.input metadata round).budget + (world.input metadata round).released.length := by
  refine ReconcileInput.activeReschedules_le_of_released (fun index hprev => ?_)
    (fun index hcurrent => ?_)
  · have hphase := (hagrees.prevPhase hprev).1
    simp [placementPhases] at hphase
  · rw [howned.current_lookup] at hcurrent
    cases hprev : (world.input metadata round).prevPhase[childName metadata.name index]? with
    | none => exact hprev
    | some phase =>
        obtain ⟨-, placement, -, -, -, hpin⟩ := hagrees.prevPhase hprev
        rw [hcurrent] at hpin
        cases hpin

theorem StatusAgrees.activeReschedules_le (hagrees : world.StatusAgrees metadata.name)
    (howned : world.Owned metadata.name)
    (hreleased : (world.input metadata round).released.length ≤
      (world.input metadata round).cap) :
    (world.input metadata round).activeReschedules ≤ (world.input metadata round).cap := by
  have hcounted := hagrees.activeReschedules_le_released howned round
  have hinflight := @StatusAgrees.released_le world metadata round hagrees howned
  rw [ReconcileInput.budget] at hcounted
  omega

end World

/-- In a run of full reconciles under one cap from no status, each of which
releases at most the cap's number of placements, no status written counts more
reschedules than the cap. -/
theorem published_counter_le_cap (metadata : ObjectMeta) (cap : Int32) (hcap : 0 ≤ cap)
    (start : World) (howned : start.Owned metadata.name) (hstatus : start.status = none)
    (rounds : Nat → Round) (time : Nat)
    (hrounds : ∀ earlier < time, (rounds earlier).IsFull metadata ∧
      (rounds earlier).spec.hysteresis.maxConcurrentReschedules = cap ∧
      (((run (fun round world => world.reconcile metadata round) rounds start earlier).input
        metadata (rounds earlier)).released.length : Int) ≤ cap.toInt)
    (status : FleetServiceStatus)
    (hwritten : (run (fun round world => world.reconcile metadata round) rounds start
      time).status = some status) :
    status.activeReschedules ≤ cap := by
  have hcapNat : (cap.toInt.toNat : Int) = cap.toInt :=
    Int.toNat_of_nonneg (Int32.le_iff_toInt_le.mp hcap)
  have hinv := @run_invariant _ _ (fun round world => World.reconcile world metadata round)
    rounds start
    (fun world => world.Owned metadata.name ∧ world.StatusAgrees metadata.name ∧
      ∀ status, world.status = some status → status.activeReschedules ≤ cap)
    (fun round world => round.IsFull metadata ∧
      round.spec.hysteresis.maxConcurrentReschedules = cap ∧
      ((world.input metadata round).released.length : Int) ≤ cap.toInt)
    ⟨howned, ?_, ?_⟩ ?_ time hrounds
  · exact hinv.2.2 status hwritten
  · intro placement hmem
    simp [World.placements, hstatus] at hmem
  · intro status hsome
    rw [hstatus] at hsome
    cases hsome
  · rintro round world ⟨hfull, rfl, hreleased⟩ ⟨howned, hagrees, -⟩
    refine ⟨howned.reconcile, howned.statusAgrees_reconcile hfull, ?_⟩
    intro status hsome
    rw [World.reconcile_status hfull, Option.some.injEq] at hsome
    have hcount := @World.StatusAgrees.activeReschedules_le world metadata round hagrees howned
      (by
        change _ ≤ (round.spec.hysteresis.maxConcurrentReschedules).toInt.toNat
        omega)
    have hbound : (world.input metadata round).activeReschedules ≤
        round.spec.hysteresis.maxConcurrentReschedules.toInt.toNat := hcount
    have hhigh := round.spec.hysteresis.maxConcurrentReschedules.toInt_lt
    rw [← hsome, Int32.le_iff_toInt_le, ReconcileInput.fullStatus,
      ReconcileInput.int32_ofNat_toInt (by omega)]
    omega

namespace Sample

/-- Two replicas on one node, a notice on every node there is, then none. -/
def clearedRounds (time : Nat) : Round :=
  round (spec 2 1 1) (snapshot ["a"] ([["a"]].getD time [])) []

/-- Slot 0 moves off `a`, one move under a cap of one. -/
theorem published_counter_le_cap_sample :
    let rounds := flightRounds [["a"]]
    let after := run (fun round world => World.reconcile world metadata round) rounds
      (pinned [(0, "a"), (1, "b")]) 2
    ∃ status, after.status = some status ∧ status.activeReschedules ≤ 1 := by
  intro rounds after
  have hfull : ∀ time, (rounds time).IsFull metadata := fun time => flightRounds_isFull (by
    cases time with
    | zero => decide
    | succ time => exact List.mem_cons_self)
  refine ⟨_, World.reconcile_status (hfull 1), ?_⟩
  refine published_counter_le_cap metadata 1 (by decide) _ (pinned_owned (by decide)) (by decide)
    rounds 2 (fun earlier hlt => ⟨hfull earlier, rfl, ?_⟩) _ (World.reconcile_status (hfull 1))
  interval_cases earlier
  · decide
  · decide

/-- With a cap of one, the notice on `a` clears and both held placements count. -/
theorem published_counter_counterexample :
    (∀ time, (clearedRounds time).IsFull metadata ∧
      (clearedRounds time).spec.hysteresis.maxConcurrentReschedules = 1) ∧
    ∃ status, (run (fun round world => World.reconcile world metadata round) clearedRounds
      (pinned [(0, "a"), (1, "a")]) 2).status = some status ∧ status.activeReschedules = 2 := by
  have hfull : ∀ time, (clearedRounds time).IsFull metadata := by
    intro time
    cases time with
    | zero => exact round_isFull rfl (by decide)
    | succ time => exact @round_isFull _ (snapshot ["a"] []) _ rfl (by decide)
  have hwritten := @World.reconcile_status (run (fun round world =>
    World.reconcile world metadata round) clearedRounds (pinned [(0, "a"), (1, "a")]) 1)
    metadata (clearedRounds 1) (hfull 1)
  exact ⟨fun time => ⟨hfull time, rfl⟩, _, hwritten, by decide⟩

end Sample

end VllmColdstartOperator
