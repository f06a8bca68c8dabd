import VllmColdstartOperator.FleetController.World

/-!
# The reason in the status

A reconcile that plans nothing says why.  One that plans clears the message,
also when no survivor is left for the slots that have no child.
-/

namespace VllmColdstartOperator

open Foundation Std

namespace World

variable {world : World} {metadata : ObjectMeta} {round : Round}

def message (world : World) : String := (world.status.map FleetServiceStatus.message).getD ""

def Unplaced (world : World) (metadata : ObjectMeta) (round : Round) : Prop :=
  ∃ index < round.spec.replicas.toInt.toNat,
    world.children[childName metadata.name index]? = none

/-- An unplaced slot has a reason, and a reconcile that plans and leaves none has
no message. -/
def MessageTells (world : World) (metadata : ObjectMeta) (round : Round) : Prop :=
  ((world.reconcile metadata round).Unplaced metadata round →
      (world.reconcile metadata round).message ≠ "") ∧
    (round.IsFull metadata → ¬ (world.reconcile metadata round).Unplaced metadata round →
      (world.reconcile metadata round).message = "")

/-- The reconcile plans with no survivor to plan on, and a slot has no child. -/
def Stranded (world : World) (metadata : ObjectMeta) (round : Round) : Prop :=
  round.IsFull metadata ∧ (world.input metadata round).healthyCandidates = [] ∧
    ∃ index < round.spec.replicas.toInt.toNat,
      (world.input metadata round).current[index]? = none ∧
        world.children[childName metadata.name index]? = none

theorem message_merge (text selector : String) (first : Option (String × Int32))
    (status : Option FleetServiceStatus) :
    (StatusPatch.merge (.message text selector first) status).message = text := by
  cases first <;> rfl

theorem message_of_not_isFull (hns : metadata.ns.isSome = true) (hfull : ¬ round.IsFull metadata) :
    (world.reconcile metadata round).message ≠ "" := by
  have htext : ∃ text ≠ "", reconcileInner (world.input metadata round) =
      .ok [.patchStatus ((world.input metadata round).messagePatch text)] := by
    obtain ⟨ns, hsome⟩ := Option.isSome_iff_exists.mp hns
    have hinput : (world.input metadata round).fleet.metadata.ns = some ns := hsome
    rw [reconcileInner, hinput]
    dsimp only
    by_cases hsupported : (world.input metadata round).strategy.isSupported = true
    · have hpool : (world.input metadata round).poolCandidates = [] := by
        by_contra hpool
        exact hfull ⟨hns, hsupported, hpool⟩
      refine ⟨_, ?_, by rw [hsupported, hpool]; rfl⟩
      unfold ReconcileInput.noCandidateMessage
      split <;> decide
    · exact ⟨unsupportedMessage, by decide, by simp [hsupported]⟩
  obtain ⟨text, hne, hcalls⟩ := htext
  rw [reconcile, hcalls]
  have hmessage : ((world.performAll [.patchStatus
      ((world.input metadata round).messagePatch text)]).message) = text :=
    message_merge _ _ _ _
  rw [hmessage]
  exact hne

theorem message_of_isFull (hfull : round.IsFull metadata) :
    (world.reconcile metadata round).message = "" := by
  rw [message, reconcile_status hfull]
  rfl

theorem reconcile_child_eq_none (hfull : round.IsFull metadata) {index : Nat}
    (hrange : index < (world.input metadata round).desired) :
    (world.reconcile metadata round).children[childName metadata.name index]? = none ↔
      (world.input metadata round).pin index = none ∧
        world.children[childName metadata.name index]? = none := by
  have hkept : index ∉ (world.input metadata round).removedSlots.map Prod.fst := by
    rw [List.mem_map]
    rintro ⟨⟨slot, node⟩, hremoved, rfl⟩
    exact ((ReconcileInput.mem_removedSlots slot node).mp hremoved).2.1 hrange
  rw [reconcile_lookup hfull, if_neg hkept, if_pos hrange, Option.or_eq_none_iff,
    Option.map_eq_none_iff]

theorem unplaced_iff (hfull : round.IsFull metadata) :
    (world.reconcile metadata round).Unplaced metadata round ↔
      world.Stranded metadata round := by
  constructor
  · rintro ⟨index, hrange, hnone⟩
    obtain ⟨hpin, hchild⟩ := (reconcile_child_eq_none hfull hrange).mp hnone
    have hhealthy : (world.input metadata round).healthyCandidates = [] := by
      by_contra hhealthy
      obtain ⟨node, hnode⟩ :=
        ReconcileInput.pin_isSome (input_isSupported world hfull) hhealthy hrange
      simp [hpin] at hnode
    exact ⟨hfull, hhealthy, index, hrange, ReconcileInput.current_of_pin_eq_none hpin, hchild⟩
  · rintro ⟨-, hhealthy, index, hrange, hcurrent, hchild⟩
    refine ⟨index, hrange, (reconcile_child_eq_none hfull hrange).mpr ⟨?_, hchild⟩⟩
    rw [ReconcileInput.pin_of_no_healthy hhealthy, hcurrent]

/-- The status tells of an unplaced slot exactly where a reconcile that plans has
a survivor to plan on or finds a child for every slot in range. -/
theorem message_tells_iff (world : World) (metadata : ObjectMeta) (round : Round)
    (hns : metadata.ns.isSome = true) :
    world.MessageTells metadata round ↔ ¬ world.Stranded metadata round := by
  by_cases hfull : round.IsFull metadata
  · rw [MessageTells, message_of_isFull hfull, unplaced_iff hfull]
    simp
  · have hstranded : ¬ world.Stranded metadata round := fun hstranded => hfull hstranded.1
    simp [MessageTells, message_of_not_isFull hns hfull, hfull, hstranded]

end World

namespace Sample

open World

theorem message_tells_iff_sample :
    empty.MessageTells metadata (round (spec 1 1 1) (snapshot ["a", "b"] ["a"]) []) := by
  refine (message_tells_iff empty metadata _ rfl).mpr ?_
  rintro ⟨-, hhealthy, -⟩
  exact absurd hhealthy (by decide)

/-- The only node has a notice: no child, and no message. -/
theorem message_counterexample :
    ¬ ∀ (world : World) (metadata : ObjectMeta) (round : Round), metadata.ns.isSome = true →
      world.MessageTells metadata round := by
  intro htells
  have hfull : (round (spec 1 1 1) (snapshot ["a"] ["a"]) []).IsFull metadata :=
    round_isFull rfl (by decide)
  have hunplaced := unplaced_iff hfull |>.mpr (⟨hfull, by decide, 0, by decide, by decide, rfl⟩ :
    empty.Stranded metadata (round (spec 1 1 1) (snapshot ["a"] ["a"]) []))
  exact (htells empty metadata _ rfl).1 hunplaced (message_of_isFull hfull)

end Sample

end VllmColdstartOperator
