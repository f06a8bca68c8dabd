import VllmColdstartOperator.Foundation.Runs
import VllmColdstartOperator.FleetController.World

/-!
# The moves really in flight

`maxConcurrentReschedules` is enforced through the phases of the last status.
Beside a run of full reconciles stands the set of slots whose move is really in
flight; the phases keep up with it while no replacement is observed unready once
it is Rescheduling.
-/

namespace VllmColdstartOperator

open Foundation Std

theorem card_le_countP {fleetName : String} {slots : Finset Nat}
    {placements : List PlacementStatus} {test : PlacementStatus → Bool}
    (hslots : ∀ index ∈ slots, ∃ placement ∈ placements,
      placement.vllmServiceRef = childName fleetName index ∧ test placement = true) :
    slots.card ≤ placements.countP test := by
  have hsubset : slots.image (childName fleetName) ⊆
      ((placements.filter test).map PlacementStatus.vllmServiceRef).toFinset := by
    intro name hname
    obtain ⟨index, hindex, rfl⟩ := Finset.mem_image.mp hname
    obtain ⟨placement, hmem, href, htest⟩ := hslots index hindex
    rw [List.mem_toFinset, ← href]
    exact List.mem_map_of_mem (List.mem_filter.mpr ⟨hmem, htest⟩)
  calc slots.card
      = (slots.image (childName fleetName)).card :=
        (Finset.card_image_of_injective _ (childName_injective fleetName)).symm
    _ ≤ ((placements.filter test).map PlacementStatus.vllmServiceRef).toFinset.card :=
        Finset.card_le_card hsubset
    _ ≤ ((placements.filter test).map PlacementStatus.vllmServiceRef).length :=
        List.toFinset_card_le _
    _ = placements.countP test := by rw [List.length_map, List.countP_eq_length_filter]

namespace World

variable {metadata : ObjectMeta} {round : Round}

/-! ## The moves of a run -/

def pinDisplaced (world : World) (fleetName : String) (round : Round) (index : Nat) : Bool :=
  match world.pin fleetName index with
  | some node => decide (node ∈ round.snapshot.displaced)
  | none => false

def startedMoves (metadata : ObjectMeta) (before : World) (round : Round) : Finset Nat :=
  (Finset.range (before.input metadata round).desired).filter fun index =>
    before.pinDisplaced metadata.name round index = true ∧
      (before.reconcile metadata round).pin metadata.name index ≠
        before.pin metadata.name index

def writtenReady (world : World) (fleetName : String) (index : Nat) : Bool :=
  world.placements.any fun placement =>
    placement.vllmServiceRef = childName fleetName index ∧ placement.phase = "Ready"

/-- A move goes on until its placement is written Ready or its child deleted. -/
def goesOn (fleetName : String) (after : World) (index : Nat) : Bool :=
  !after.writtenReady fleetName index && (after.pin fleetName index).isSome

/-- Every move, until it ends. -/
def allMovesAfter (metadata : ObjectMeta) (before : World) (round : Round)
    (moves : Finset Nat) : Finset Nat :=
  let after := before.reconcile metadata round
  moves.filter (fun index => goesOn metadata.name after index) ∪
    startedMoves metadata before round

/-- The moves whose replacement is not itself on a displaced node: one that is
drains and holds, or starts a new move. -/
def movesAfter (metadata : ObjectMeta) (before : World) (round : Round)
    (moves : Finset Nat) : Finset Nat :=
  let after := before.reconcile metadata round
  moves.filter (fun index => goesOn metadata.name after index ∧
      after.pinDisplaced metadata.name round index = false) ∪
    startedMoves metadata before round

def flightRun (count : ObjectMeta → World → Round → Finset Nat → Finset Nat)
    (metadata : ObjectMeta) (rounds : Nat → Round) (start : World) :
    Nat → World × Finset Nat :=
  run (fun round state => (state.1.reconcile metadata round,
    count metadata state.1 round state.2)) rounds (start, ∅)

/-- Whether every replacement on a node not displaced is observed Ready once its
placement is Rescheduling. -/
def ComesUp (metadata : ObjectMeta) (state : World × Finset Nat) (round : Round) : Prop :=
  ∀ index ∈ state.2, state.1.pinDisplaced metadata.name round index = false →
    (state.1.input metadata round).prevPhase[childName metadata.name index]? =
      some "Rescheduling" →
    round.ready metadata.name index = true

/-! ## The invariant -/

/-- A slot in flight has a placement on its pin that is draining or
rescheduling. -/
structure FlightInv (metadata : ObjectMeta) (cap : Nat) (state : World × Finset Nat) :
    Prop where
  owned : state.1.Owned metadata.name
  bound : state.2.card ≤ cap
  flying : ∀ index ∈ state.2, ∃ placement ∈ state.1.placements,
    placement.vllmServiceRef = childName metadata.name index ∧
    state.1.pin metadata.name index = some placement.nodeRef ∧
    (placement.phase = "Draining" ∨ placement.phase = "Rescheduling") ∧
    ∀ round, (state.1.input metadata round).prevPhase[childName metadata.name index]? =
      some placement.phase

variable {world : World}

theorem pinDisplaced_iff (index : Nat) :
    world.pinDisplaced metadata.name round index = true ↔
      ∃ node, world.pin metadata.name index = some node ∧
        node ∈ round.snapshot.displaced := by
  unfold pinDisplaced
  cases world.pin metadata.name index with
  | none => simp
  | some node => simp

theorem mem_startedMoves (index : Nat) :
    index ∈ startedMoves metadata world round ↔
      index < (world.input metadata round).desired ∧
        world.pinDisplaced metadata.name round index = true ∧
        (world.reconcile metadata round).pin metadata.name index ≠
          world.pin metadata.name index := by
  rw [startedMoves, Finset.mem_filter, Finset.mem_range]

theorem Owned.started_moved (howned : world.Owned metadata.name)
    (hfull : round.IsFull metadata) {index : Nat}
    (hstarted : index ∈ startedMoves metadata world round) :
    index ∈ (world.input metadata round).movedSlots := by
  obtain ⟨hrange, hdisplaced, hafter⟩ := (mem_startedMoves index).mp hstarted
  obtain ⟨node, hbefore, -⟩ := (pinDisplaced_iff index).mp hdisplaced
  rw [howned.reconcile_pin hfull, if_pos hrange, hbefore] at hafter
  exact (ReconcileInput.moved_of_repinned
    ((howned.current_lookup round index).trans hbefore) hafter).1

theorem Owned.card_started_le (howned : world.Owned metadata.name)
    (hfull : round.IsFull metadata) :
    (startedMoves metadata world round).card ≤ (world.input metadata round).budget := by
  have hsubset : startedMoves metadata world round ⊆
      (world.input metadata round).movedSlots.toFinset := by
    intro index hstarted
    exact List.mem_toFinset.mpr (howned.started_moved hfull hstarted)
  calc (startedMoves metadata world round).card
      ≤ (world.input metadata round).movedSlots.toFinset.card := Finset.card_le_card hsubset
    _ ≤ (world.input metadata round).movedSlots.length := List.toFinset_card_le _
    _ ≤ (world.input metadata round).budget := ReconcileInput.movedSlots_length_le

namespace FlightInv

variable {cap : Nat} {state : World × Finset Nat}

theorem kept (hinv : FlightInv metadata cap state) (hfull : round.IsFull metadata) {index : Nat}
    (hmem : index ∈ movesAfter metadata state.1 round state.2)
    (hstarted : index ∉ startedMoves metadata state.1 round) :
    index ∈ state.2 ∧
      (state.1.reconcile metadata round).pin metadata.name index =
        state.1.pin metadata.name index ∧
      state.1.pinDisplaced metadata.name round index = false ∧
      (state.1.reconcile metadata round).writtenReady metadata.name index = false := by
  simp only [movesAfter, Finset.mem_union, hstarted, or_false, Finset.mem_filter, goesOn,
    Bool.and_eq_true, Bool.not_eq_true'] at hmem
  obtain ⟨hin, ⟨hunready, hsome⟩, hdisplaced⟩ := hmem
  obtain ⟨placement, -, -, hpin, -, -⟩ := hinv.flying index hin
  have hsame : (state.1.reconcile metadata round).pin metadata.name index =
      state.1.pin metadata.name index := by
    have hafter := hinv.owned.reconcile_pin hfull index
    by_cases hrange : index < (state.1.input metadata round).desired
    · by_contra hchanged
      apply hstarted
      refine (mem_startedMoves index).mpr ⟨hrange, ?_, hchanged⟩
      rw [if_pos hrange] at hafter
      rw [hafter, hpin] at hchanged
      have hmoved := ReconcileInput.moved_of_repinned
        ((hinv.owned.current_lookup round index).trans hpin) hchanged
      exact (pinDisplaced_iff index).mpr ⟨placement.nodeRef, hpin, hmoved.2⟩
    · rw [if_neg hrange] at hafter
      split at hafter
      · rw [hafter] at hsome
        cases hsome
      · exact hafter
  refine ⟨hin, hsame, ?_, hunready⟩
  rw [← hdisplaced, pinDisplaced, pinDisplaced, hsame]

theorem card_movesAfter_le (hinv : FlightInv metadata cap state) (hfull : round.IsFull metadata)
    (hcap : (state.1.input metadata round).cap = cap) :
    (movesAfter metadata state.1 round state.2).card ≤ cap := by
  let staying := state.2.filter fun index =>
    state.1.pinDisplaced metadata.name round index = false
  have hstaying : staying.card ≤ (state.1.input metadata round).inFlightMoves := by
    apply card_le_countP
    intro index hindex
    obtain ⟨hin, hdisplaced⟩ := Finset.mem_filter.mp hindex
    obtain ⟨placement, hmem, href, hpin, hphase, -⟩ := hinv.flying index hin
    refine ⟨placement, hmem, href, ?_⟩
    have hnode : placement.nodeRef ∉ round.snapshot.displaced := by
      intro hnode
      rw [(pinDisplaced_iff index).mpr ⟨_, hpin, hnode⟩] at hdisplaced
      cases hdisplaced
    exact decide_eq_true ⟨hphase, hnode⟩
  have hsubset : movesAfter metadata state.1 round state.2 ⊆
      staying ∪ startedMoves metadata state.1 round := by
    intro index hmem
    by_cases hstarted : index ∈ startedMoves metadata state.1 round
    · exact Finset.mem_union_right _ hstarted
    · obtain ⟨hin, -, hdisplaced, -⟩ := hinv.kept hfull hmem hstarted
      exact Finset.mem_union_left _ (Finset.mem_filter.mpr ⟨hin, hdisplaced⟩)
  have hunion : (movesAfter metadata state.1 round state.2).card ≤
      staying.card + (startedMoves metadata state.1 round).card :=
    (Finset.card_le_card hsubset).trans (Finset.card_union_le _ _)
  have hstarted := hinv.owned.card_started_le hfull
  have hbefore : staying.card ≤ cap :=
    (Finset.card_le_card (Finset.filter_subset _ _)).trans hinv.bound
  rw [ReconcileInput.budget, hcap] at hstarted
  omega

theorem advancedPhase_of_flying (input : ReconcileInput) {index : Nat} {phase : String}
    (hprev : input.prevPhase[childName input.fleet.name index]? = some phase)
    (hphase : phase = "Draining" ∨ phase = "Rescheduling")
    (hready : phase = "Rescheduling" →
      (input.childReady[childName input.fleet.name index]?).getD false = true) :
    input.advancedPhase index false = "Rescheduling" ∨
      input.advancedPhase index false = "Ready" := by
  rw [ReconcileInput.advancedPhase, hprev, Option.getD_some]
  rcases hphase with rfl | rfl
  · exact .inl rfl
  · rw [hready rfl]
    exact .inr rfl

theorem written (hinv : FlightInv metadata cap state) (hfull : round.IsFull metadata)
    (hcomes : ComesUp metadata state round) {index : Nat}
    (hmem : index ∈ movesAfter metadata state.1 round state.2) :
    ∃ placement, (state.1.input metadata round).placementOf index = some placement ∧
      (state.1.reconcile metadata round).pin metadata.name index = some placement.nodeRef ∧
      (placement.phase = "Draining" ∨ placement.phase = "Rescheduling") := by
  have hafter := hinv.owned.reconcile_pin hfull index
  by_cases hstarted : index ∈ startedMoves metadata state.1 round
  · obtain ⟨hrange, hdisplaced, -⟩ := (mem_startedMoves index).mp hstarted
    obtain ⟨before, hbefore, hnode⟩ := (pinDisplaced_iff index).mp hdisplaced
    have hmoved := hinv.owned.started_moved hfull hstarted
    obtain ⟨-, target, htarget⟩ := ReconcileInput.of_mem_movedSlots hmoved
    rw [if_pos hrange, ReconcileInput.pin_of_moved hmoved, htarget] at hafter
    have hleft : before ≠ target := fun heq =>
      ReconcileInput.target_not_displaced htarget (heq ▸ hnode)
    obtain ⟨placement, hplacement, hnext, hphase⟩ :=
      hinv.owned.placementOf_moved hfull hbefore hafter hleft
    exact ⟨placement, hplacement, hafter.trans (congrArg some hnext.symm), .inl hphase⟩
  · obtain ⟨hin, hsame, hdisplaced, hunready⟩ := hinv.kept hfull hmem hstarted
    obtain ⟨placement, -, -, hpin, hphase, hprev⟩ := hinv.flying index hin
    have hnode : placement.nodeRef ∉ round.snapshot.displaced := by
      intro hnode
      rw [(pinDisplaced_iff index).mpr ⟨_, hpin, hnode⟩] at hdisplaced
      cases hdisplaced
    obtain ⟨next, hnext, hnextNode, hnextPhase⟩ :=
      hinv.owned.placementOf_kept hfull hpin (hsame.trans hpin)
    rw [decide_eq_false (fun h => hnode h.2)] at hnextPhase
    have hadvanced := advancedPhase_of_flying (state.1.input metadata round) (hprev round) hphase
      fun hrescheduling => (hinv.owned.childReady_getD round hpin).trans
        (hcomes index hin hdisplaced ((hprev round).trans (congrArg some hrescheduling)))
    refine ⟨next, hnext, (hsame.trans hpin).trans (congrArg some hnextNode.symm), .inr ?_⟩
    rw [hnextPhase]
    rcases hadvanced with hrescheduling | hready
    · exact hrescheduling
    · have hwritten : (state.1.reconcile metadata round).writtenReady metadata.name index =
          true := by
        rw [writtenReady, reconcile_placements hfull, List.any_eq_true]
        refine ⟨next, (ReconcileInput.mem_placements next).mpr ⟨index, hnext⟩, ?_⟩
        exact decide_eq_true ⟨ReconcileInput.placementOf_ref hnext, hnextPhase.trans hready⟩
      rw [hunready] at hwritten
      cases hwritten

theorem step (hinv : FlightInv metadata cap state) (hfull : round.IsFull metadata)
    (hcap : (state.1.input metadata round).cap = cap) (hcomes : ComesUp metadata state round) :
    FlightInv metadata cap (state.1.reconcile metadata round,
      movesAfter metadata state.1 round state.2) where
  owned := hinv.owned.reconcile
  bound := hinv.card_movesAfter_le hfull hcap
  flying := by
    intro index hmem
    obtain ⟨placement, hplacement, hpin, hphase⟩ := hinv.written hfull hcomes hmem
    have href := ReconcileInput.placementOf_ref hplacement
    refine ⟨placement, ?_, href, hpin, hphase, fun next => ?_⟩
    · rw [reconcile_placements hfull]
      exact (ReconcileInput.mem_placements placement).mpr ⟨index, hplacement⟩
    · have hread := ReconcileInput.prevPhase_readBack (state.1.input metadata round)
        ((state.1.reconcile metadata round).input metadata next) (reconcile_placements hfull) index
      rw [hplacement] at hread
      exact hread

end FlightInv

end World

/-- In a run of full reconciles under one cap, in which every replacement on a
node not displaced is observed Ready once it is Rescheduling: after every
reconcile at most the cap's number of moves go on, those whose replacement's own
node is displaced left out. -/
theorem moves_in_flight_le_cap (metadata : ObjectMeta) (cap : Int32) (start : World)
    (howned : start.Owned metadata.name) (rounds : Nat → Round) (time : Nat)
    (hrounds : ∀ earlier < time, (rounds earlier).IsFull metadata ∧
      (rounds earlier).spec.hysteresis.maxConcurrentReschedules = cap ∧
      World.ComesUp metadata
        (start.flightRun World.movesAfter metadata rounds earlier) (rounds earlier)) :
    (start.flightRun World.movesAfter metadata rounds time).2.card ≤ cap.toInt.toNat := by
  refine (@run_invariant _ _ _ _ _ (World.FlightInv metadata cap.toInt.toNat)
    (fun round state => round.IsFull metadata ∧
      round.spec.hysteresis.maxConcurrentReschedules = cap ∧
      World.ComesUp metadata state round) ⟨howned, ?_, ?_⟩ ?_ time hrounds).bound
  · exact Nat.zero_le _
  · intro index hmem
    cases hmem
  · rintro round state ⟨hfull, hcap, hcomes⟩ hinv
    refine hinv.step hfull ?_ hcomes
    rw [ReconcileInput.cap, ← hcap]
    rfl

namespace Sample

def flightRounds (noticed : List (List String)) (time : Nat) : Round :=
  round (spec 2 1 1) (snapshot ["a", "b", "d"] (noticed.getD time [])) []

theorem flightRounds_isFull {noticed : List (List String)} {time : Nat}
    (hnoticed : noticed.getD time [] ∈ [[], ["a"], ["b"], ["b", "d"]]) :
    (flightRounds noticed time).IsFull metadata := by
  apply round_isFull rfl
  show (snapshot ["a", "b", "d"] (noticed.getD time [])).poolCandidates ∅ ≠ []
  generalize noticed.getD time [] = names at hnoticed
  simp only [List.mem_cons, List.not_mem_nil, or_false] at hnoticed
  rcases hnoticed with rfl | rfl | rfl | rfl <;> decide

/-- A notice on `a` starts the move of slot 0, which is still going on after the
next reconcile. -/
theorem moves_in_flight_le_cap_sample :
    let moves := ((pinned [(0, "a"), (1, "b")]).flightRun World.movesAfter metadata
      (flightRounds [["a"]]) 2).2
    moves = {0} ∧ moves.card ≤ 1 := by
  refine ⟨by decide, moves_in_flight_le_cap metadata 1 _ (pinned_owned (by decide)) _ 2 ?_⟩
  intro earlier hlt
  refine ⟨flightRounds_isFull ?_, rfl, ?_⟩
  · interval_cases earlier <;> decide
  · unfold World.ComesUp
    interval_cases earlier <;> decide

/-- With a cap of one, two moves go on: the replacement of slot 1 is displaced
with the node of slot 0; and the replacement of slot 0 stays unready for two
reconciles before slot 1 is displaced. -/
theorem moves_in_flight_counterexample :
    let displacedAgain := [["a"], ["b", "d"]]
    let unready := [["a"], [], [], ["b"]]
    (∀ noticed ∈ [displacedAgain, unready], ∀ time < 4,
      (flightRounds noticed time).IsFull metadata ∧
        (flightRounds noticed time).spec.hysteresis.maxConcurrentReschedules = 1) ∧
    ((pinned [(0, "d"), (1, "a")]).flightRun World.allMovesAfter metadata
      (flightRounds displacedAgain) 2).2 = {0, 1} ∧
    ((pinned [(0, "a"), (1, "b")]).flightRun World.allMovesAfter metadata
      (flightRounds unready) 4).2 = {0, 1} := by
  intro displacedAgain unready
  refine ⟨?_, by decide, by decide⟩
  intro noticed hnoticed time htime
  refine ⟨flightRounds_isFull ?_, rfl⟩
  simp only [List.mem_cons, List.not_mem_nil, or_false] at hnoticed
  rcases hnoticed with rfl | rfl
  · interval_cases time <;> decide
  · interval_cases time <;> decide

end Sample

end VllmColdstartOperator
