import VllmColdstartOperator.Foundation.Runs
import VllmColdstartOperator.FleetController.World

/-!
# The scale-down wait

The scale-down pass deletes the surplus children whose wait is over, one call
at a time.  A delete answered 404 is done; any other error ends the reconcile
before its status write.  The counter in the status is compared with a count of
the completed reconciles, kept beside the run.
-/

namespace VllmColdstartOperator

open Foundation Std

inductive DeleteAnswer where
  | ok
  | notFound
  | error
  deriving DecidableEq, Repr

/-- A child already gone is the desired end state, not an error. -/
def DeleteAnswer.isDone : DeleteAnswer → Bool
  | .ok => true
  | .notFound => true
  | .error => false

structure ScaleDownAttempt where
  round : Round
  answer : Nat → DeleteAnswer

namespace World

variable {world : World} {metadata : ObjectMeta} {attempt : ScaleDownAttempt}

/-- The surplus slots whose delete is done before one fails. -/
def deletedSlots (world : World) (metadata : ObjectMeta) (attempt : ScaleDownAttempt) :
    List (Nat × String) :=
  (world.input metadata attempt.round).removedSlots.takeWhile fun slot =>
    (attempt.answer slot.1).isDone

def completes (world : World) (metadata : ObjectMeta) (attempt : ScaleDownAttempt) : Bool :=
  (world.input metadata attempt.round).removedSlots.all fun slot =>
    (attempt.answer slot.1).isDone

def tryReconcile (world : World) (metadata : ObjectMeta) (attempt : ScaleDownAttempt) : World :=
  if world.completes metadata attempt then world.reconcile metadata attempt.round
  else world.attempt metadata attempt.round
    ((world.input metadata attempt.round).slotNodes.length +
      (world.deletedSlots metadata attempt).length)

def surplusWithChild (world : World) (metadata : ObjectMeta) (round : Round) (index : Nat) :
    Bool :=
  decide (max round.spec.replicas.toInt 0 ≤ index) &&
    (world.children[childName metadata.name index]?).isSome

def deletes (world : World) (metadata : ObjectMeta) (attempt : ScaleDownAttempt)
    (index : Nat) : Bool :=
  (world.children[childName metadata.name index]?).isSome &&
    ((world.tryReconcile metadata attempt).children[childName metadata.name index]?).isNone

/-! ## What an attempt deletes -/

theorem mem_deletedSlots (index : Nat) :
    index ∈ (world.deletedSlots metadata attempt).map Prod.fst ↔
      (∃ node, (index, node) ∈ (world.input metadata attempt.round).removedSlots) ∧
        ∀ earlier ≤ index,
          (∃ node, (earlier, node) ∈ (world.input metadata attempt.round).removedSlots) →
            (attempt.answer earlier).isDone = true := by
  rw [List.mem_map]
  constructor
  · rintro ⟨⟨_, node⟩, hmem, rfl⟩
    obtain ⟨hremoved, hearlier⟩ :=
      (BTreeMap.mem_takeWhile_iff ReconcileInput.removedSlots_sorted _).mp hmem
    exact ⟨⟨node, hremoved⟩, fun earlier hle ⟨other, hother⟩ => hearlier _ hother hle⟩
  · rintro ⟨⟨node, hremoved⟩, hearlier⟩
    refine ⟨(index, node), ?_, rfl⟩
    refine (BTreeMap.mem_takeWhile_iff ReconcileInput.removedSlots_sorted _).mpr ⟨hremoved, ?_⟩
    rintro ⟨earlier, other⟩ hother hle
    exact hearlier earlier hle ⟨other, hother⟩

theorem desired_le_iff (round : Round) (index : Nat) :
    ¬ index < (world.input metadata round).desired ↔
      max round.spec.replicas.toInt 0 ≤ index := by
  have hdesired : (world.input metadata round).desired = round.spec.replicas.toInt.toNat := rfl
  omega

theorem Owned.mem_removed (howned : world.Owned metadata.name) (round : Round) (index : Nat) :
    (∃ node, (index, node) ∈ (world.input metadata round).removedSlots) ↔
      world.surplusWithChild metadata round index = true ∧
        ((world.input metadata round).surplusOutcome index).2 = true := by
  simp only [ReconcileInput.mem_removedSlots, exists_and_right, howned.current_lookup _,
    desired_le_iff, surplusWithChild, Bool.and_eq_true, decide_eq_true_eq]
  rw [← Option.ne_none_iff_exists', Option.isSome_iff_ne_none, ne_eq, ne_eq,
    howned.pin_eq_none]
  tauto

theorem tryReconcile_children (hfull : attempt.round.IsFull metadata) :
    (world.tryReconcile metadata attempt).children =
      (world.performAll ((world.input metadata attempt.round).childCalls.take
        ((world.input metadata attempt.round).slotNodes.length +
          (world.deletedSlots metadata attempt).length))).children := by
  unfold tryReconcile
  split
  · next hcompletes =>
      have hall : world.deletedSlots metadata attempt =
          (world.input metadata attempt.round).removedSlots :=
        List.takeWhile_eq_self_iff.mpr (List.all_eq_true.mp hcompletes)
      rw [hall, List.take_of_length_le (by simp [ReconcileInput.childCalls]),
        reconcile_of_isFull hfull]
      rfl
  · exact attempt_children hfull _

theorem tryReconcile_child (hfull : attempt.round.IsFull metadata) (index : Nat) :
    (world.tryReconcile metadata attempt).children[childName metadata.name index]? =
      if index ∈ (world.deletedSlots metadata attempt).map Prod.fst then none
      else ((if index < (world.input metadata attempt.round).desired then
          (world.input metadata attempt.round).pin index else none).map fun node =>
        (world.input metadata attempt.round).child (index, node)).or
          world.children[childName metadata.name index]? := by
  have hchild := children_take world (world.input metadata attempt.round)
    ((world.input metadata attempt.round).slotNodes.length +
      (world.deletedSlots metadata attempt).length) index
  have hprefix : (world.input metadata attempt.round).removedSlots.take
      (world.deletedSlots metadata attempt).length = world.deletedSlots metadata attempt :=
    (List.prefix_iff_eq_take.mp (List.takeWhile_prefix _)).symm
  rw [← tryReconcile_children hfull, Nat.add_sub_cancel_left, hprefix,
    List.take_of_length_le (Nat.le_add_right _ _), ReconcileInput.slotNodes_lookup] at hchild
  exact hchild

theorem Owned.deletes_iff (howned : world.Owned metadata.name)
    (hfull : attempt.round.IsFull metadata) (index : Nat) :
    world.deletes metadata attempt index = true ↔
      index ∈ (world.deletedSlots metadata attempt).map Prod.fst := by
  rw [deletes, Bool.and_eq_true, tryReconcile_child hfull, Option.isNone_iff_eq_none]
  by_cases hdeleted : index ∈ (world.deletedSlots metadata attempt).map Prod.fst
  · obtain ⟨hremoved, -⟩ := (mem_deletedSlots index).mp hdeleted
    have hsurplus := ((howned.mem_removed attempt.round index).mp hremoved).1
    rw [surplusWithChild, Bool.and_eq_true] at hsurplus
    simp only [hdeleted, if_true, and_true, hsurplus.2]
  · rw [if_neg hdeleted]
    simp only [hdeleted, iff_false, not_and]
    intro hpresent
    obtain ⟨child, hchild⟩ := Option.isSome_iff_exists.mp hpresent
    simp [hchild]

/-! ## Counting the wait -/

/-- After a completed reconcile: one more for a slot that was surplus with its
child present and still has it, nothing for any other. -/
def waitAfter (metadata : ObjectMeta) (world : World) (attempt : ScaleDownAttempt)
    (wait : Nat → Nat) : Nat → Nat :=
  if world.completes metadata attempt then fun index =>
    if world.surplusWithChild metadata attempt.round index &&
        !world.deletes metadata attempt index then wait index + 1
    else 0
  else wait

/-- The same count, going on over the reconcile that deletes the child. -/
def streakAfter (metadata : ObjectMeta) (world : World) (attempt : ScaleDownAttempt)
    (streak : Nat → Nat) : Nat → Nat :=
  if world.completes metadata attempt then fun index =>
    if world.surplusWithChild metadata attempt.round index then streak index + 1 else 0
  else streak

def scaleDownRun
    (count : ObjectMeta → World → ScaleDownAttempt → (Nat → Nat) → Nat → Nat)
    (metadata : ObjectMeta) (attempts : Nat → ScaleDownAttempt) (start : World) :
    Nat → World × (Nat → Nat) :=
  run (fun attempt state =>
    (state.1.tryReconcile metadata attempt, count metadata state.1 attempt state.2))
    attempts (start, fun _ => 0)

/-- Whether the wait of a slot is over: surplus with its child present for at
least `max 1 stableReconcilesRequired` reconciles, this one included. -/
def WaitIsOver (metadata : ObjectMeta) (state : World × (Nat → Nat)) (round : Round)
    (index : Nat) : Prop :=
  state.1.surplusWithChild metadata round index = true ∧
    max 1 round.spec.hysteresis.stableReconcilesRequired.toInt ≤ state.2 index + 1

/-- The counter in the status is the wait, saturated. -/
def CountsWait (metadata : ObjectMeta) (state : World × (Nat → Nat)) : Prop :=
  state.1.Owned metadata.name ∧ ∀ round index,
    (((state.1.input metadata round).prevSurplus[childName metadata.name index]?).getD
      0).toInt = min (state.2 index : Int) (2 ^ 31 - 1)

theorem CountsWait.removed_iff {state : World × (Nat → Nat)} (hcounts : CountsWait metadata state)
    (round : Round) (index : Nat) :
    (∃ node, (index, node) ∈ (state.1.input metadata round).removedSlots) ↔
      WaitIsOver metadata state round index := by
  obtain ⟨howned, hcounter⟩ := hcounts
  rw [howned.mem_removed, WaitIsOver]
  exact and_congr_right fun _ => (surplusHysteresis_wait (hcounter round index)).1

theorem CountsWait.deletes_iff {state : World × (Nat → Nat)}
    (hcounts : CountsWait metadata state) (hfull : attempt.round.IsFull metadata)
    (index : Nat) :
    state.1.deletes metadata attempt index = true ↔
      WaitIsOver metadata state attempt.round index ∧
        ∀ earlier ≤ index, WaitIsOver metadata state attempt.round earlier →
          (attempt.answer earlier).isDone = true := by
  rw [hcounts.1.deletes_iff hfull, mem_deletedSlots]
  simp only [hcounts.removed_iff]

theorem completes_iff {state : World × (Nat → Nat)} (hcounts : CountsWait metadata state) :
    state.1.completes metadata attempt = true ↔
      ∀ index, WaitIsOver metadata state attempt.round index →
        (attempt.answer index).isDone = true := by
  simp only [completes, List.all_eq_true, Prod.forall, ← hcounts.removed_iff,
    forall_exists_index]

theorem tryReconcile_status_of_failed (hfull : attempt.round.IsFull metadata)
    (hfailed : world.completes metadata attempt = false) :
    (world.tryReconcile metadata attempt).status = world.status := by
  have hle : (world.deletedSlots metadata attempt).length ≤
      (world.input metadata attempt.round).removedSlots.length :=
    (List.takeWhile_prefix _).length_le
  rw [tryReconcile, hfailed]
  apply attempt_status hfull
  simp only [ReconcileInput.childCalls, List.length_append, List.length_map]
  omega

theorem Owned.tryReconcile (howned : world.Owned metadata.name) :
    (world.tryReconcile metadata attempt).Owned metadata.name := by
  unfold World.tryReconcile
  split
  · exact howned.reconcile
  · exact howned.attempt _

theorem Owned.written_counter (howned : world.Owned metadata.name) {round : Round}
    (hfull : round.IsFull metadata) (next : Round) (index : Nat) :
    ((((world.reconcile metadata round).input metadata next).prevSurplus[
        childName metadata.name index]?).getD 0) =
      if world.surplusWithChild metadata round index = true ∧
          ((world.input metadata round).surplusOutcome index).2 = false
      then ((world.input metadata round).surplusOutcome index).1 else 0 := by
  have hread := ReconcileInput.prevSurplus_readBack (world.input metadata round)
    ((world.reconcile metadata round).input metadata next) (reconcile_placements hfull) index
  rw [show (world.input metadata round).fleet.name = metadata.name from rfl] at hread
  rw [hread, ReconcileInput.placementOf, howned.current_lookup _]
  by_cases hrange : index < (world.input metadata round).desired
  · have hsurplus : world.surplusWithChild metadata round index = false := by
      rw [surplusWithChild, decide_eq_false (fun hle =>
        (desired_le_iff round index).mpr hle hrange), Bool.false_and]
    rw [if_pos hrange, hsurplus]
    cases (world.input metadata round).pin index <;> rfl
  · have hsurplus : world.surplusWithChild metadata round index =
        (world.pin metadata.name index).isSome := by
      rw [surplusWithChild, decide_eq_true ((desired_le_iff round index).mp hrange),
        Bool.true_and, Bool.eq_iff_iff, Option.isSome_iff_ne_none, Option.isSome_iff_ne_none,
        ne_eq, ne_eq, howned.pin_eq_none]
    rw [if_neg hrange, hsurplus]
    cases houtcome : ((world.input metadata round).surplusOutcome index).2 with
    | true => simp
    | false => cases world.pin metadata.name index <;> rfl

theorem CountsWait.step {state : World × (Nat → Nat)} (hcounts : CountsWait metadata state)
    (hfull : attempt.round.IsFull metadata) :
    CountsWait metadata (state.1.tryReconcile metadata attempt,
      waitAfter metadata state.1 attempt state.2) := by
  obtain ⟨world, wait⟩ := state
  obtain ⟨howned, hcounter⟩ := hcounts
  refine ⟨howned.tryReconcile, fun round index => ?_⟩
  cases hcompletes : world.completes metadata attempt with
  | false =>
      have hstatus := tryReconcile_status_of_failed hfull hcompletes
      have hplacements : (world.tryReconcile metadata attempt).placements = world.placements := by
        rw [placements, placements, hstatus]
      have hkept := hcounter round index
      simp only [ReconcileInput.prevSurplus, input_placements] at hkept ⊢
      rw [hplacements, waitAfter, hcompletes]
      exact hkept
  | true =>
      have hreconcile : world.tryReconcile metadata attempt =
          world.reconcile metadata attempt.round := by
        rw [World.tryReconcile, if_pos hcompletes]
      have hheld : ((world.input metadata attempt.round).surplusOutcome index).2 = false →
          ((world.input metadata attempt.round).surplusOutcome index).1.toInt =
            min ((wait index : Int) + 1) (2 ^ 31 - 1) :=
        (surplusHysteresis_wait (hcounter attempt.round index)).2
      have hdeletes : world.deletes metadata attempt index = true ↔
          world.surplusWithChild metadata attempt.round index = true ∧
            ((world.input metadata attempt.round).surplusOutcome index).2 = true := by
        rw [howned.deletes_iff hfull, mem_deletedSlots, ← howned.mem_removed]
        refine and_iff_left fun earlier _ hremoved => ?_
        obtain ⟨node, hnode⟩ := hremoved
        exact List.all_eq_true.mp hcompletes (earlier, node) hnode
      rw [hreconcile, howned.written_counter hfull, waitAfter, if_pos hcompletes]
      dsimp only
      cases hsurplus : world.surplusWithChild metadata attempt.round index with
      | false => simp
      | true =>
          cases houtcome : ((world.input metadata attempt.round).surplusOutcome index).2 with
          | true =>
              have hdeleted := hdeletes.mpr ⟨hsurplus, houtcome⟩
              simp [hdeleted]
          | false =>
              have hkept : world.deletes metadata attempt index = false := by
                rw [Bool.eq_false_iff, ne_eq, hdeletes, houtcome]
                simp
              simpa [hkept] using hheld houtcome

theorem countsWait_run {start : World} (hstatus : start.status = none)
    (howned : start.Owned metadata.name) (attempts : Nat → ScaleDownAttempt) (time : Nat)
    (hfull : ∀ earlier < time, (attempts earlier).round.IsFull metadata) :
    CountsWait metadata (start.scaleDownRun waitAfter metadata attempts time) := by
  refine @run_invariant _ _ _ _ _ (CountsWait metadata)
    (fun attempt _ => attempt.round.IsFull metadata) ⟨howned, ?_⟩ ?_ time hfull
  · intro round index
    have hnone : start.placements = [] := by rw [placements, hstatus]; rfl
    rw [ReconcileInput.prevSurplus, input_placements, hnone]
    rfl
  · intro attempt state hfull hcounts
    exact hcounts.step hfull

end World

/-- In a run of full reconciles of a fleet with no status, each reaching its
status write or failing at a delete: a reconcile deletes the child of exactly
the slots whose wait is over, up to the first of them whose delete fails, and a
reconcile that fails leaves the status as it was. -/
theorem scaleDown_deletes_iff (metadata : ObjectMeta) (start : World)
    (hstatus : start.status = none) (howned : start.Owned metadata.name)
    (attempts : Nat → ScaleDownAttempt) (time : Nat)
    (hfull : ∀ earlier ≤ time, (attempts earlier).round.IsFull metadata) :
    let state := start.scaleDownRun World.waitAfter metadata attempts time
    let attempt := attempts time
    (∀ index, state.1.deletes metadata attempt index = true ↔
      World.WaitIsOver metadata state attempt.round index ∧
        ∀ earlier ≤ index, World.WaitIsOver metadata state attempt.round earlier →
          (attempt.answer earlier).isDone = true) ∧
    (state.1.completes metadata attempt = true ↔
      ∀ index, World.WaitIsOver metadata state attempt.round index →
        (attempt.answer index).isDone = true) ∧
    (state.1.completes metadata attempt = false →
      (state.1.tryReconcile metadata attempt).status = state.1.status) := by
  intro state attempt
  have hcounts := World.countsWait_run hstatus howned attempts time fun earlier hlt =>
    hfull earlier (Nat.le_of_lt hlt)
  have hnow := hfull time le_rfl
  exact ⟨hcounts.deletes_iff hnow, World.completes_iff hcounts,
    World.tryReconcile_status_of_failed hnow⟩

namespace Sample

/-- One reconcile of the fleet on node `a`, with the slots whose delete fails. -/
def scaleDownAttempt (replicas required : Int32) (failing : List Nat) : ScaleDownAttempt where
  round := round (spec replicas required 1) (snapshot ["a"] []) []
  answer := fun index => if index ∈ failing then .error else .ok

theorem scaleDownAttempt_isFull (replicas required : Int32) (failing : List Nat) :
    (scaleDownAttempt replicas required failing).round.IsFull metadata := by
  apply round_isFull
  · rfl
  · show (snapshot ["a"] []).poolCandidates ∅ ≠ []
    decide

def waitAttempts (time : Nat) : ScaleDownAttempt :=
  scaleDownAttempt 0 2 (if time = 1 then [0] else [])

/-- Two surplus slots, held once; then the delete of the first fails. -/
theorem scaleDown_deletes_iff_sample :
    let state := (pinned [(0, "a"), (1, "a")]).scaleDownRun World.waitAfter metadata
      waitAttempts 1
    World.WaitIsOver metadata state (waitAttempts 1).round 0 ∧
      World.WaitIsOver metadata state (waitAttempts 1).round 1 ∧
      state.1.deletes metadata (waitAttempts 1) 0 = false ∧
      state.1.deletes metadata (waitAttempts 1) 1 = false := by
  intro state
  have hfirst : World.WaitIsOver metadata state (waitAttempts 1).round 0 := by
    constructor <;> decide
  have hsecond : World.WaitIsOver metadata state (waitAttempts 1).round 1 := by
    constructor <;> decide
  obtain ⟨hdeletes, -, -⟩ := scaleDown_deletes_iff metadata (pinned [(0, "a"), (1, "a")]) rfl
    (pinned_owned (by decide)) waitAttempts 1 fun _ _ => scaleDownAttempt_isFull _ _ _
  have hkept : ∀ index, state.1.deletes metadata (waitAttempts 1) index = false := by
    intro index
    rw [Bool.eq_false_iff, ne_eq, hdeletes index]
    rintro ⟨-, hearlier⟩
    exact absurd (hearlier 0 (Nat.zero_le index) hfirst) (by decide)
  exact ⟨hfirst, hsecond, hkept 0, hkept 1⟩

def recreateAttempts (time : Nat) : ScaleDownAttempt :=
  [scaleDownAttempt 0 2 [], scaleDownAttempt 2 0 [2], scaleDownAttempt 0 2 [],
    scaleDownAttempt 1 0 [1]].getD time (scaleDownAttempt 0 2 [])

/-- The child of slot 0 is deleted by the third reconcile, recreated by the
fourth, which fails, and waits anew in the fifth; and a failing delete leaves
the due slot above it. -/
theorem scaleDown_streak_counterexample :
    let recreated := (pinned [(0, "a"), (2, "a")]).scaleDownRun World.streakAfter metadata
      recreateAttempts 4
    let failed := (pinned [(0, "a"), (1, "a")]).scaleDownRun World.streakAfter metadata
      waitAttempts 1
    ((∀ time ≤ 4, (recreateAttempts time).round.IsFull metadata) ∧
      World.WaitIsOver metadata recreated (recreateAttempts 4).round 0 ∧
      recreated.1.completes metadata (recreateAttempts 4) = true ∧
      recreated.1.deletes metadata (recreateAttempts 4) 0 = false) ∧
    World.WaitIsOver metadata failed (waitAttempts 1).round 1 ∧
      failed.1.deletes metadata (waitAttempts 1) 1 = false := by
  refine ⟨⟨?_, ⟨?_, ?_⟩, ?_, ?_⟩, ⟨?_, ?_⟩, ?_⟩
  · intro time hle
    interval_cases time <;> exact scaleDownAttempt_isFull _ _ _
  all_goals decide

end Sample

end VllmColdstartOperator
