import VllmColdstartOperator.Foundation.Runs
import VllmColdstartOperator.FleetController.World

/-!
# The record of the decision behind a pin

`decidedOn` is carried from status to status by child name, whatever happens to
the pin.  Beside the run a history keeps, for each slot, what the reconcile that
pinned it had read; the record agrees with it as long as no slot that has a
record is pinned anew.
-/

namespace VllmColdstartOperator

open Foundation Std

/-! ## What a reconcile reads and writes of a record -/

namespace ReconcileInput

variable {input : ReconcileInput}

def inputsFor (input : ReconcileInput) (node : String) : Option PlacementDecisionInputs :=
  decisionInputs input.candidates node input.strategy input.horizonSecs

/-- Whether the reconcile gives a slot in range a new node: some survivor is
eligible and the slot either is displaced within the budget or has no child. -/
def IsRepinned (input : ReconcileInput) (index : Nat) : Prop :=
  index < input.desired ∧ input.healthyCandidates ≠ [] ∧
    (index ∈ (input.displacedSlots.take input.budget).map Prod.fst ∨
      input.current[index]? = none)

theorem inputsFor_isSome {node : String}
    (hnode : ∃ candidate ∈ input.candidates, candidate.name = node) :
    (input.inputsFor node).isSome = true := by
  obtain ⟨candidate, hmem, hname⟩ := hnode
  obtain ⟨found, hfound⟩ := Option.isSome_iff_exists.mp
    (List.find?_isSome (p := fun candidate => decide (candidate.name = node)) |>.mpr
      ⟨candidate, hmem, by simpa using hname⟩)
  rw [inputsFor, decisionInputs, hfound]
  rfl

theorem pin_inputsFor_isSome {index : Nat} {node : String} (hpin : input.pin index = some node)
    (hchanged : input.current[index]? ≠ some node) : (input.inputsFor node).isSome = true := by
  apply inputsFor_isSome
  rcases pin_cases hpin with ⟨-, htarget⟩ | ⟨-, hkept⟩ | ⟨-, -, hfresh⟩
  · obtain ⟨candidate, hmem, hname⟩ := target_mem htarget
    exact ⟨candidate, (mem_healthyCandidates hmem).1, hname⟩
  · exact absurd hkept hchanged
  · obtain ⟨candidate, hmem, hname⟩ := fresh_mem hfresh
    exact ⟨candidate, (mem_healthyCandidates hmem).1, hname⟩

theorem isRepinned_of_changed {index : Nat} {node : String} (hrange : index < input.desired)
    (hpin : input.pin index = some node) (hchanged : input.current[index]? ≠ some node) :
    input.IsRepinned index := by
  have hhealthy : input.healthyCandidates ≠ [] := by
    intro hnone
    rw [pin_of_no_healthy hnone] at hpin
    exact hchanged hpin
  refine ⟨hrange, hhealthy, ?_⟩
  rcases pin_cases hpin with ⟨hmoved, -⟩ | ⟨-, hkept⟩ | ⟨hnone, -, -⟩
  · unfold movedSlots at hmoved
    split at hmoved
    · exact .inl hmoved
    · simp at hmoved
  · exact absurd hkept hchanged
  · exact .inr hnone

end ReconcileInput

namespace World

variable {world : World} {metadata : ObjectMeta} {round : Round}

/-! ## Runs with a history -/

def lose (world : World) (gone : String → Bool) : World :=
  { world with children := world.children.filter fun name _ => !gone name }

/-- For each slot, the reconcile that last gave it a new node, as it read it. -/
abbrev PinHistory := Nat → Option ReconcileInput

def recordPins (metadata : ObjectMeta) (before : World) (round : Round)
    (history : PinHistory) : PinHistory := fun index =>
  let pin := (before.reconcile metadata round).pin metadata.name index
  if pin.isSome && decide (pin ≠ before.pin metadata.name index)
  then some (before.input metadata round) else history index

def historyStep (metadata : ObjectMeta) (step : (String → Bool) × Round)
    (state : World × PinHistory) : World × PinHistory :=
  let before := state.1.lose step.1
  (before.reconcile metadata step.2, recordPins metadata before step.2 state.2)

def historyRun (metadata : ObjectMeta) (steps : Nat → (String → Bool) × Round)
    (start : World) : Nat → World × PinHistory :=
  run (historyStep metadata) steps (start, fun _ => none)

def inputsAtPinning (history : PinHistory) (index : Nat) (node : String) :
    Option PlacementDecisionInputs := do
  let input ← history index
  input.inputsFor node

/-- Every record in the status is that of the reconcile that chose the node. -/
def RecordsPinning (metadata : ObjectMeta) (state : World × PinHistory) : Prop :=
  ∀ index, ∀ placement ∈ state.1.placements,
    placement.vllmServiceRef = childName metadata.name index →
    ∀ decided, placement.decidedOn = some decided →
      inputsAtPinning state.2 index placement.nodeRef = some decided

/-- A reconcile that keeps the pin of a child keeps the record of its slot. -/
def KeepsRecords (metadata : ObjectMeta) (state : World × PinHistory)
    (step : (String → Bool) × Round) : Prop :=
  let after := historyStep metadata step state
  ∀ index, ∀ old ∈ state.1.placements, ∀ new ∈ after.1.placements,
    old.vllmServiceRef = childName metadata.name index →
    new.vllmServiceRef = childName metadata.name index →
    (state.1.lose step.1).pin metadata.name index = after.1.pin metadata.name index →
    new.decidedOn = old.decidedOn

theorem lose_child (gone : String → Bool) {name : String} {child : VllmService}
    (hchild : (world.lose gone).children[name]? = some child) :
    world.children[name]? = some child := by
  rw [lose, ExtTreeMap.getElem?_filter', Option.filter_eq_some_iff] at hchild
  exact hchild.1

theorem Owned.lose (howned : world.Owned metadata.name) (gone : String → Bool) :
    (world.lose gone).Owned metadata.name :=
  fun name child hchild => howned name child (lose_child gone hchild)

theorem pin_of_lose {gone : String → Bool} {index : Nat} {node : String}
    (hpin : (world.lose gone).pin metadata.name index = some node) :
    world.pin metadata.name index = some node := by
  obtain ⟨child, hchild, hnode⟩ := Option.bind_eq_some_iff.mp hpin
  exact Option.bind_eq_some_iff.mpr ⟨child, lose_child gone hchild, hnode⟩

theorem inputsAtPinning_kept {history : PinHistory} {index : Nat}
    (hkept : (world.reconcile metadata round).pin metadata.name index =
      world.pin metadata.name index) (node : String) :
    inputsAtPinning (recordPins metadata world round history) index node =
      inputsAtPinning history index node := by
  simp [inputsAtPinning, recordPins, hkept]

theorem inputsAtPinning_new {history : PinHistory} {index : Nat} {node : String}
    (hafter : (world.reconcile metadata round).pin metadata.name index = some node)
    (hbefore : world.pin metadata.name index ≠ some node) :
    inputsAtPinning (recordPins metadata world round history) index node =
      (world.input metadata round).inputsFor node := by
  simp [inputsAtPinning, recordPins, hafter, hbefore.symm]

/-! ## The invariant -/

/-- What holds after every status write: each child has a placement, and each
placement names its pin and carries the record of the reconcile that chose it. -/
structure RecordInv (metadata : ObjectMeta) (state : World × PinHistory) : Prop where
  owned : state.1.Owned metadata.name
  placed : ∀ index node, state.1.pin metadata.name index = some node →
    ∃ placement ∈ state.1.placements, placement.vllmServiceRef = childName metadata.name index
  recorded : ∀ index, ∀ placement ∈ state.1.placements,
    placement.vllmServiceRef = childName metadata.name index →
    state.1.pin metadata.name index = some placement.nodeRef ∧
      ∃ decided, placement.decidedOn = some decided ∧
        inputsAtPinning state.2 index placement.nodeRef = some decided

namespace RecordInv

variable {state : World × PinHistory} {gone : String → Bool}

theorem start {start : World} (hstatus : start.status = none)
    (hchildren : start.children = ∅) : RecordInv metadata (start, fun _ => none) := by
  have hempty : start.placements = [] := by rw [placements, hstatus]; rfl
  have hnone : ∀ name : String, start.children[name]? = none := by
    intro name
    rw [hchildren, ExtTreeMap.getElem?_empty]
  refine ⟨fun name child hchild => ?_, fun index node hpin => ?_, fun index placement hmem => ?_⟩
  · rw [hnone] at hchild
    cases hchild
  · rw [pin, hnone] at hpin
    cases hpin
  · rw [hempty] at hmem
    cases hmem

theorem recordsPinning (hinv : RecordInv metadata state) : RecordsPinning metadata state := by
  intro index placement hmem href decided hdecided
  obtain ⟨-, other, hother, hinputs⟩ := hinv.recorded index placement hmem href
  rw [hother, Option.some.injEq] at hdecided
  rw [hinputs, hdecided]

theorem prevDecided_of_pinned (hinv : RecordInv metadata state) (round : Round) {index : Nat}
    {node : String}
    (hpin : (state.1.lose gone).pin metadata.name index = some node) :
    ∃ decided,
      ((state.1.lose gone).input metadata round).prevDecided[childName metadata.name index]? =
        some decided ∧ inputsAtPinning state.2 index node = some decided := by
  have hpin := pin_of_lose hpin
  obtain ⟨placement, hmem, href⟩ := hinv.placed index node hpin
  obtain ⟨hnode, decided, hdecided, hinputs⟩ := hinv.recorded index placement hmem href
  rw [hpin, Option.some.injEq] at hnode
  rw [← hnode] at hinputs
  refine ⟨decided, BTreeMap.lookup_collect_of_unique ?_ ?_, hinputs⟩
  · exact List.mem_filterMap.mpr ⟨placement, hmem, by rw [hdecided, href]; rfl⟩
  · intro other hother
    obtain ⟨found, hfound, heq⟩ := List.mem_filterMap.mp hother
    obtain ⟨_, hvalue, heq⟩ := Option.map_eq_some_iff.mp heq
    obtain ⟨hname, rfl⟩ := Prod.mk.inj heq
    obtain ⟨hsame, read, hread, hagain⟩ := hinv.recorded index found hfound hname
    rw [hpin, Option.some.injEq] at hsame
    rw [← hsame, hinputs, Option.some.injEq] at hagain
    rw [hvalue, Option.some.injEq] at hread
    rw [hread, hagain]

/-- The placement a full reconcile writes for a slot, given that it pins anew no
slot that has a record. -/
theorem written (hinv : RecordInv metadata state) (hfull : round.IsFull metadata)
    (hfresh : ∀ index, ((state.1.lose gone).input metadata round).IsRepinned index →
      ((state.1.lose gone).input metadata round).prevDecided[
        childName metadata.name index]? = none)
    {index : Nat} {placement : PlacementStatus}
    (hplacement : ((state.1.lose gone).input metadata round).placementOf index =
      some placement) :
    ((state.1.lose gone).reconcile metadata round).pin metadata.name index =
        some placement.nodeRef ∧
      ∃ decided, placement.decidedOn = some decided ∧
        inputsAtPinning (recordPins metadata (state.1.lose gone) round state.2) index
          placement.nodeRef = some decided := by
  have howned := hinv.owned.lose gone
  have hafter := howned.reconcile_pin hfull index
  have hcurrent := howned.current_lookup round index
  unfold ReconcileInput.placementOf at hplacement
  split at hplacement
  · next hrange =>
      obtain ⟨node, hpin, rfl⟩ := Option.map_eq_some_iff.mp hplacement
      rw [if_pos hrange, hpin] at hafter
      refine ⟨hafter, ?_⟩
      by_cases hkept : (state.1.lose gone).pin metadata.name index = some node
      · obtain ⟨decided, hread, hinputs⟩ := hinv.prevDecided_of_pinned round hkept
        refine ⟨decided, ?_, ?_⟩
        · exact (congrArg (Option.or · _) hread).trans Option.some_or
        · rw [inputsAtPinning_kept (hafter.trans hkept.symm)]
          exact hinputs
      · have hchanged : ((state.1.lose gone).input metadata round).current[index]? ≠ some node :=
          fun heq => hkept (hcurrent.symm.trans heq)
        have hnone := hfresh index (ReconcileInput.isRepinned_of_changed hrange hpin hchanged)
        obtain ⟨decided, hdecided⟩ := Option.isSome_iff_exists.mp
          (ReconcileInput.pin_inputsFor_isSome hpin hchanged)
        refine ⟨decided, ?_, ?_⟩
        · exact (congrArg (Option.or · _) hnone).trans (Option.none_or.trans hdecided)
        · exact (inputsAtPinning_new hafter hkept).trans hdecided
  · next hrange =>
      split at hplacement
      · cases hplacement
      · next hheld =>
          obtain ⟨node, hnode, rfl⟩ := Option.map_eq_some_iff.mp hplacement
          rw [if_neg hrange, if_neg hheld, ← hcurrent, hnode] at hafter
          have hpin := hcurrent.symm.trans hnode
          obtain ⟨decided, hread, hinputs⟩ := hinv.prevDecided_of_pinned round hpin
          refine ⟨hafter, decided, hread, ?_⟩
          rw [inputsAtPinning_kept (hafter.trans hpin.symm)]
          exact hinputs

theorem step (hinv : RecordInv metadata state) (hfull : round.IsFull metadata)
    (hfresh : ∀ index, ((state.1.lose gone).input metadata round).IsRepinned index →
      ((state.1.lose gone).input metadata round).prevDecided[
        childName metadata.name index]? = none) :
    RecordInv metadata (historyStep metadata (gone, round) state) where
  owned := (hinv.owned.lose gone).reconcile
  placed := by
    intro index node hpin
    have howned := hinv.owned.lose gone
    have hafter := howned.reconcile_pin hfull index
    have hplaced : ∃ placement,
        ((state.1.lose gone).input metadata round).placementOf index = some placement := by
      rw [show (historyStep metadata (gone, round) state).1 =
        (state.1.lose gone).reconcile metadata round from rfl, hafter] at hpin
      unfold ReconcileInput.placementOf
      split
      · next hrange =>
          rw [if_pos hrange] at hpin
          exact ⟨_, by rw [hpin]; rfl⟩
      · next hrange =>
          rw [if_neg hrange] at hpin
          split
          · next hremoved =>
              rw [if_pos hremoved] at hpin
              cases hpin
          · next hheld =>
              rw [if_neg hheld, ← howned.current_lookup round] at hpin
              exact ⟨_, by rw [hpin]; rfl⟩
    obtain ⟨placement, hplacement⟩ := hplaced
    refine ⟨placement, ?_, ReconcileInput.placementOf_ref hplacement⟩
    rw [show (historyStep metadata (gone, round) state).1 =
      (state.1.lose gone).reconcile metadata round from rfl, reconcile_placements hfull]
    exact (ReconcileInput.mem_placements placement).mpr ⟨index, hplacement⟩
  recorded := by
    intro index placement hmem href
    rw [show (historyStep metadata (gone, round) state).1 =
      (state.1.lose gone).reconcile metadata round from rfl, reconcile_placements hfull] at hmem
    exact hinv.written hfull hfresh (ReconcileInput.placement_unique hmem href)

theorem keepsRecords (hinv : RecordInv metadata state)
    (hnext : RecordInv metadata (historyStep metadata (gone, round) state)) :
    KeepsRecords metadata state (gone, round) := by
  intro index old hold new hnew holdRef hnewRef hkept
  obtain ⟨holdPin, decided, holdDecided, holdInputs⟩ := hinv.recorded index old hold holdRef
  obtain ⟨hnewPin, written, hwritten, hinputs⟩ := hnext.recorded index new hnew hnewRef
  have hsame : old.nodeRef = new.nodeRef := by
    have hpin := pin_of_lose (hkept.trans hnewPin)
    rwa [holdPin, Option.some.injEq] at hpin
  have hinputs := (inputsAtPinning_kept hkept.symm new.nodeRef).symm.trans hinputs
  rw [← hsame, holdInputs] at hinputs
  rw [hwritten, holdDecided, hinputs]

end RecordInv

end World

/-- In a run of full reconciles from a fleet with no status and no child, as
long as no slot with a record is moved or planned again, every record is that of
the reconcile that chose the node, and a reconcile that keeps a pin keeps its
record. -/
theorem decidedOn_records_pinning (metadata : ObjectMeta) (start : World)
    (hstatus : start.status = none) (hchildren : start.children = ∅)
    (steps : Nat → (String → Bool) × Round) (time : Nat)
    (hallowed : ∀ earlier < time,
      let state := start.historyRun metadata steps earlier
      let input := (state.1.lose (steps earlier).1).input metadata (steps earlier).2
      (steps earlier).2.IsFull metadata ∧
        ∀ index, input.IsRepinned index →
          input.prevDecided[childName metadata.name index]? = none) :
    World.RecordsPinning metadata (start.historyRun metadata steps time) ∧
      ∀ earlier < time, World.KeepsRecords metadata
        (start.historyRun metadata steps earlier) (steps earlier) := by
  have hinv : ∀ later ≤ time, World.RecordInv metadata (start.historyRun metadata steps later) := by
    intro later hle
    refine @run_invariant _ _ _ _ _ (World.RecordInv metadata)
      (fun step state => step.2.IsFull metadata ∧
        ∀ index, ((state.1.lose step.1).input metadata step.2).IsRepinned index →
          ((state.1.lose step.1).input metadata step.2).prevDecided[
            childName metadata.name index]? = none)
      (World.RecordInv.start hstatus hchildren) ?_ later
      fun earlier hlt => hallowed earlier (Nat.lt_of_lt_of_le hlt hle)
    rintro ⟨gone, round⟩ state ⟨hfull, hfresh⟩ hinv
    exact hinv.step hfull hfresh
  refine ⟨(hinv time le_rfl).recordsPinning, fun earlier hlt => ?_⟩
  exact (hinv earlier (Nat.le_of_lt hlt)).keepsRecords (hinv (earlier + 1) hlt)

namespace Sample

/-- Two nodes, of which `b` reports its utilization, is preferred, and may have
a notice. -/
def utilizedSnapshot (noticed : Bool) : Snapshot where
  states := [nodeState "a" false, { nodeState "b" noticed with
    status := (nodeState "b" noticed).status.map fun status =>
      { status with gpuUtilization := some ⟨0x3f000000#32⟩ } }]
  clock := ⟨0, fun _ => none⟩
  nodes := some []
  allServices := some []

theorem utilizedSnapshot_poolCandidates (noticed : Bool) :
    (utilizedSnapshot noticed).poolCandidates ∅ ≠ [] := by
  cases noticed <;> decide

def utilizedSteps (noticed : Bool) (time : Nat) : (String → Bool) × Round :=
  (fun _ => false, round (spec 1 1 1) (utilizedSnapshot (noticed && decide (0 < time))) [])

theorem utilizedSteps_isFull (noticed : Bool) (time : Nat) :
    (utilizedSteps noticed time).2.IsFull metadata :=
  round_isFull rfl (utilizedSnapshot_poolCandidates _)

/-- Placed on `b`, then kept there. -/
theorem decidedOn_records_pinning_sample :
    let state := empty.historyRun metadata (utilizedSteps false) 2
    (∃ placement ∈ state.1.placements, placement.nodeRef = "b" ∧
      placement.decidedOn.isSome = true) ∧ World.RecordsPinning metadata state := by
  refine ⟨by decide +kernel,
    (decidedOn_records_pinning metadata empty rfl rfl (utilizedSteps false) 2 ?_).1⟩
  intro earlier hlt
  refine ⟨utilizedSteps_isFull false earlier, fun index hrepinned => ?_⟩
  obtain ⟨hrange, -, hcase⟩ := hrepinned
  have hindex : index = 0 := by
    have hdesired : index < 1 := hrange
    omega
  subst hindex
  interval_cases earlier
  · decide +kernel
  · revert hcase
    decide +kernel

/-- Placed on `b`, then moved to `a`: the record stays that of `b`. -/
theorem decidedOn_counterexample :
    (∀ time, (utilizedSteps true time).2.IsFull metadata) ∧
      ¬ World.RecordsPinning metadata (empty.historyRun metadata (utilizedSteps true) 2) := by
  refine ⟨utilizedSteps_isFull true, fun hrecords => ?_⟩
  have hmoved : ∃ placement ∈ (empty.historyRun metadata (utilizedSteps true) 2).1.placements,
      placement.vllmServiceRef = childName metadata.name 0 ∧
        ∃ decided ∈ placement.decidedOn, World.inputsAtPinning
          (empty.historyRun metadata (utilizedSteps true) 2).2 0 placement.nodeRef ≠
            some decided := by
    decide +kernel
  obtain ⟨placement, hmem, href, decided, hdecided, hne⟩ := hmoved
  exact hne (hrecords 0 placement hmem href decided hdecided)

end Sample

end VllmColdstartOperator
