import VllmColdstartOperator.Foundation.Runs
import VllmColdstartOperator.FleetController.World

/-!
# Pins move only off displaced nodes

A reconcile, complete or cut anywhere, changes the node of an existing child
only from a displaced node to one that is not displaced.  Along a run in which
the displaced nodes only grow in number, no slot returns to a node it left.
-/

namespace VllmColdstartOperator

open Foundation Std

namespace World

variable {world : World} {metadata : ObjectMeta} {round : Round}

/-- The worlds of a run of reconciles, each after the calls it made. -/
def attempts (metadata : ObjectMeta) (rounds : Nat → Round × Nat) (start : World) :
    Nat → World :=
  run (fun (round, made) world => world.attempt metadata round made) rounds start

def pinsAlong (start : World) (metadata : ObjectMeta) (rounds : Nat → Round × Nat)
    (index time : Nat) : Option String :=
  (start.attempts metadata rounds time).pin metadata.name index

theorem Owned.attempts (howned : world.Owned metadata.name) (rounds : Nat → Round × Nat)
    (time : Nat) : (world.attempts metadata rounds time).Owned metadata.name := by
  induction time with
  | zero => exact howned
  | succ time ih => exact Owned.attempt ih _

theorem attempt_pin_cases {made index : Nat} {node : String}
    (hafter : (world.attempt metadata round made).pin metadata.name index = some node) :
    world.pin metadata.name index = some node ∨
      (world.input metadata round).pin index = some node := by
  obtain ⟨child, hafter, hnode⟩ := Option.bind_eq_some_iff.mp hafter
  rcases attempt_child world metadata round made index with
    ⟨-, -, hchild⟩ | hchild | ⟨other, -, hpin, hchild⟩
  · rw [hchild] at hafter
    cases hafter
  · rw [hchild] at hafter
    exact .inl (Option.bind_eq_some_iff.mpr ⟨child, hafter, hnode⟩)
  · rw [hchild, Option.some.injEq] at hafter
    rw [← hafter, ReconcileInput.child_nodeName] at hnode
    exact .inr (hpin.trans hnode)

theorem Owned.attempt_pin_new (howned : world.Owned metadata.name) {made index : Nat}
    {node : String}
    (hafter : (world.attempt metadata round made).pin metadata.name index = some node)
    (hbefore : world.pin metadata.name index ≠ some node) :
    node ∉ round.snapshot.displaced := by
  have hpin := (attempt_pin_cases hafter).resolve_left hbefore
  rw [← input_displaced world metadata]
  apply ReconcileInput.pin_not_displaced hpin
  rw [howned.current_lookup round]
  exact hbefore

theorem Owned.attempt_pin_left (howned : world.Owned metadata.name) {made index : Nat}
    {before after : String} (hbefore : world.pin metadata.name index = some before)
    (hafter : (world.attempt metadata round made).pin metadata.name index = some after)
    (hne : before ≠ after) : before ∈ round.snapshot.displaced := by
  have hchanged : some before ≠ some after := by simpa using hne
  have hpin := (attempt_pin_cases hafter).resolve_left (hbefore ▸ hchanged)
  have hcurrent := (howned.current_lookup round index).trans hbefore
  rw [← input_displaced world metadata]
  exact (ReconcileInput.moved_of_repinned hcurrent (hpin ▸ hchanged.symm)).2

theorem Owned.attempts_leavesBarred (howned : world.Owned metadata.name)
    {rounds : Nat → Round × Nat}
    (hgrows : ∀ time node, (rounds time).1.snapshot.IsDisplaced node →
      (rounds (time + 1)).1.snapshot.IsDisplaced node) (index : Nat) :
    LeavesBarred (world.pinsAlong metadata rounds index)
      (fun time node => (rounds time).1.snapshot.IsDisplaced node) where
  grows := hgrows
  leaves := by
    intro time before after hbefore hafter hne
    rw [Snapshot.isDisplaced_iff]
    exact (howned.attempts rounds time).attempt_pin_left hbefore hafter hne
  enters := by
    intro time after hafter hbefore
    rw [Snapshot.isDisplaced_iff]
    exact (howned.attempts rounds time).attempt_pin_new hafter hbefore

end World

/-- In a run of reconciles, each complete or cut: a pin moves only off a
displaced node to one that is not; while the displaced set only grows, a slot
that is on another node than before, and was not scaled down meanwhile, is
never pinned to the earlier one again; and its pin changes at most once for
each displaced node. -/
theorem pins_leave_displaced_nodes_only (metadata : ObjectMeta) (start : World)
    (howned : start.Owned metadata.name) (rounds : Nat → Round × Nat) :
    let pinAt := start.pinsAlong metadata rounds
    (∀ time index before after, pinAt index time = some before →
      pinAt index (time + 1) = some after → before ≠ after →
      (rounds time).1.snapshot.IsDisplaced before ∧
        ¬ (rounds time).1.snapshot.IsDisplaced after) ∧
    ((∀ time node, (rounds time).1.snapshot.IsDisplaced node →
        (rounds (time + 1)).1.snapshot.IsDisplaced node) →
      ∀ index,
        (∀ first middle last node, first ≤ middle → middle ≤ last →
          (∀ time, first ≤ time → time ≤ middle → pinAt index time ≠ none) →
          pinAt index first = some node → pinAt index middle ≠ some node →
          pinAt index last ≠ some node) ∧
        ∀ horizon, (List.range (horizon + 1)).countP (Moves (pinAt index)) ≤
          (rounds horizon).1.snapshot.displaced.size) := by
  intro pinAt
  constructor
  · intro time index before after hbefore hafter hne
    have htime := howned.attempts rounds time
    rw [Snapshot.isDisplaced_iff, Snapshot.isDisplaced_iff]
    refine ⟨htime.attempt_pin_left hbefore hafter hne, htime.attempt_pin_new hafter ?_⟩
    intro hsame
    exact hne (Option.some.inj (hbefore.symm.trans hsame))
  · intro hgrows index
    have hleaves := howned.attempts_leavesBarred hgrows index
    constructor
    · intro first middle last node hle hlast hsomewhere hfirst hmiddle
      exact hleaves.not_return hsomewhere hfirst hmiddle hle hlast
    · intro horizon
      rw [← ExtTreeSet.length_toList]
      apply hleaves.count_moves_le
      intro time hlt node hbarred
      rw [ExtTreeSet.mem_toList, ← Snapshot.isDisplaced_iff]
      exact hleaves.barred_later (Nat.le_of_lt_succ hlt) hbarred

namespace Sample

def calmRound : Round := round (spec 1 1 1) (snapshot ["a", "b"] []) []

def noticeRound : Round := round (spec 1 1 1) (snapshot ["a", "b"] ["b"]) []

/-- One slot on `b`, and from then on a notice on `b`. -/
theorem pins_leave_displaced_nodes_only_sample :
    let start := empty.reconcile metadata calmRound
    let pinAt := start.pinsAlong metadata (fun _ => (noticeRound, 2)) 0
    (pinAt 0 = some "b" ∧ pinAt 1 = some "a") ∧
      noticeRound.snapshot.IsDisplaced "b" ∧ ¬ noticeRound.snapshot.IsDisplaced "a" ∧
      (∀ last, 1 ≤ last → pinAt last ≠ some "b") ∧
      (List.range 9).countP (Moves pinAt) ≤ noticeRound.snapshot.displaced.size := by
  intro start pinAt
  have hbefore : pinAt 0 = some "b" := by decide
  have hafter : pinAt 1 = some "a" := by decide
  obtain ⟨hstep, hrun⟩ := pins_leave_displaced_nodes_only metadata start
    (World.Owned.reconcile (empty_owned metadata.name)) fun _ => (noticeRound, 2)
  obtain ⟨hleft, hentered⟩ := hstep 0 0 "b" "a" hbefore hafter (by decide)
  obtain ⟨hreturn, hcount⟩ := hrun (fun _ _ hdisplaced => hdisplaced) 0
  refine ⟨⟨hbefore, hafter⟩, hleft, hentered, ?_, hcount 8⟩
  intro last hlast
  apply hreturn 0 1 last "b" (by decide) hlast ?_ hbefore (by decide)
  intro time _ hle
  interval_cases time
  · decide
  · decide

end Sample

end VllmColdstartOperator
