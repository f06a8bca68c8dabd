import VllmColdstartOperator.FleetController.Placements

/-!
# The cluster between two reconciles

`World` is what the fleet controller writes: the fleet's status and its
children, by name.  The children's own statuses belong to the VllmService
controller, so a `Round` brings them with the spec and the snapshot it reads.
A world is `Owned` when every child has the name and a pin the controller gives
it; every reconcile, complete or cut, keeps it so.
-/

namespace VllmColdstartOperator

open Foundation Std

structure World where
  status : Option FleetServiceStatus
  children : BTreeMap String VllmService

structure Round where
  spec : FleetServiceSpec
  snapshot : Snapshot
  observed : String → Option VllmServiceStatus

/-- A stored child with the status its own controller last wrote. -/
def VllmService.observedAs (child : VllmService) (status : Option VllmServiceStatus) :
    VllmService :=
  { child with status := status }

@[simp] theorem slotPin_observedAs (child : VllmService) (status : Option VllmServiceStatus) :
    slotPin (child.observedAs status) = slotPin child := rfl

@[simp] theorem observedAs_name (child : VllmService) (status : Option VllmServiceStatus) :
    (child.observedAs status).name = child.name := rfl

def Round.ready (round : Round) (fleetName : String) (index : Nat) : Bool :=
  ((round.observed (childName fleetName index)).map fun status =>
    decide (status.phase = "Ready")).getD false

/-- Whether a reconcile of this round plans. -/
def Round.IsFull (round : Round) (metadata : ObjectMeta) : Prop :=
  metadata.ns.isSome = true ∧ round.spec.placement.strategy.isSupported = true ∧
    round.snapshot.poolCandidates round.spec.nodePool.selector ≠ []

namespace World

def perform (world : World) : Call → World
  | .applyChild child => { world with children := world.children.insert child.name child }
  | .deleteChild name => { world with children := world.children.erase name }
  | .patchStatus patch => { world with status := some (patch.merge world.status) }

def performAll (world : World) (calls : List Call) : World := calls.foldl perform world

def listing (world : World) (observed : String → Option VllmServiceStatus) :
    List VllmService :=
  world.children.toList.map fun (name, child) => child.observedAs (observed name)

def input (world : World) (metadata : ObjectMeta) (round : Round) : ReconcileInput where
  fleet := ⟨metadata, round.spec, world.status⟩
  snapshot := round.snapshot
  existing := world.listing round.observed

def reconcile (world : World) (metadata : ObjectMeta) (round : Round) : World :=
  match reconcileInner (world.input metadata round) with
  | .ok calls => world.performAll calls
  | .error _ => world

/-- A reconcile that is cut, or fails, after some of its calls. -/
def attempt (world : World) (metadata : ObjectMeta) (round : Round) (made : Nat) : World :=
  match reconcileInner (world.input metadata round) with
  | .ok calls => world.performAll (calls.take made)
  | .error _ => world

def placements (world : World) : List PlacementStatus :=
  (world.status.map FleetServiceStatus.placements).getD []

def pin (world : World) (fleetName : String) (index : Nat) : Option String :=
  (world.children[childName fleetName index]?).bind fun child => child.spec.nodeName

/-- Every child is one slot's, named and pinned as the controller does. -/
def Owned (world : World) (fleetName : String) : Prop :=
  ∀ name child, world.children[name]? = some child →
    ∃ index ≤ usizeMax, name = childName fleetName index ∧ child.name = name ∧
      ∃ node, child.spec.nodeName = some node

theorem performAll_append (world : World) (first second : List Call) :
    world.performAll (first ++ second) = (world.performAll first).performAll second :=
  List.foldl_append

end World

namespace ReconcileInput

variable {input : ReconcileInput}

/-! ## What the calls on the children leave -/

theorem children_applies {applied : List (Nat × String)}
    (hsorted : applied.Pairwise fun left right => left.1 < right.1) (world : World)
    (index : Nat) :
    (world.performAll (applied.map input.applyCall)).children[
        childName input.fleet.name index]? =
      ((applied.lookup index).map fun node => input.child (index, node)).or
        world.children[childName input.fleet.name index]? := by
  induction applied generalizing world with
  | nil => simp [World.performAll]
  | cons slot applied ih =>
      obtain ⟨hhead, htail⟩ := List.pairwise_cons.mp hsorted
      obtain ⟨other, node⟩ := slot
      have hstep : (world.performAll (((other, node) :: applied).map input.applyCall)) =
          (world.perform (input.applyCall (other, node))).performAll
            (applied.map input.applyCall) := rfl
      have hinsert : (world.perform (input.applyCall (other, node))).children =
          world.children.insert (childName input.fleet.name other)
            (input.child (other, node)) := rfl
      rw [hstep, ih htail, hinsert, BTreeMap.lookup_insert, List.lookup_cons]
      by_cases heq : index = other
      · subst heq
        have hnone : applied.lookup index = none := by
          rw [List.lookup_eq_none_iff]
          intro later hlater
          simpa using Nat.ne_of_lt (hhead later hlater)
        simp [hnone]
      · have hname : ¬ other = index := fun h => heq h.symm
        have hkey : (index == other) = false := by simpa using heq
        simp [hname, hkey]

theorem children_deletes (removed : List (Nat × String)) (world : World) (index : Nat) :
    (world.performAll (removed.map input.deleteCall)).children[
        childName input.fleet.name index]? =
      if index ∈ removed.map Prod.fst then none
      else world.children[childName input.fleet.name index]? := by
  induction removed generalizing world with
  | nil => simp [World.performAll]
  | cons slot removed ih =>
      have hstep : (world.performAll ((slot :: removed).map input.deleteCall)) =
          (world.perform (input.deleteCall slot)).performAll
            (removed.map input.deleteCall) := rfl
      have herase : (world.perform (input.deleteCall slot)).children =
          world.children.erase (childName input.fleet.name slot.1) := rfl
      rw [hstep, ih, herase, BTreeMap.lookup_erase]
      by_cases heq : slot.1 = index
      · simp [heq]
      · have hne : ¬ index = slot.1 := fun h => heq h.symm
        simp only [List.map_cons, List.mem_cons, hne, false_or, childName_inj, heq, if_false]

end ReconcileInput

namespace World

variable {world : World} {metadata : ObjectMeta} {round : Round}

theorem performAll_children {Holds : String → VllmService → Prop} {calls : List Call}
    (hworld : ∀ name child, world.children[name]? = some child → Holds name child)
    (hcalls : ∀ child, .applyChild child ∈ calls → Holds child.name child) :
    ∀ name child, (world.performAll calls).children[name]? = some child → Holds name child := by
  induction calls generalizing world with
  | nil => exact hworld
  | cons call calls ih =>
      refine ih ?_ fun child hmem => hcalls child (List.mem_cons_of_mem _ hmem)
      intro name child hlookup
      cases call with
      | applyChild applied =>
          rw [perform, BTreeMap.lookup_insert] at hlookup
          split at hlookup
          · next hname =>
              cases hlookup
              exact hname ▸ hcalls child List.mem_cons_self
          · exact hworld name child hlookup
      | deleteChild removed =>
          rw [perform, BTreeMap.lookup_erase] at hlookup
          split at hlookup
          · cases hlookup
          · exact hworld name child hlookup
      | patchStatus patch => exact hworld name child hlookup

theorem Owned.performAll {fleetName : String} (howned : world.Owned fleetName)
    {calls : List Call}
    (hcalls : ∀ child, .applyChild child ∈ calls →
      ∃ index ≤ usizeMax, child.name = childName fleetName index ∧
        ∃ node, child.spec.nodeName = some node) :
    (world.performAll calls).Owned fleetName := by
  refine performAll_children howned fun child hmem => ?_
  obtain ⟨index, hle, hname, hnode⟩ := hcalls child hmem
  exact ⟨index, hle, hname, rfl, hnode⟩

theorem mem_listing {observed : String → Option VllmServiceStatus} {child : VllmService} :
    child ∈ world.listing observed ↔
      ∃ (name : String) (stored : VllmService), world.children[name]? = some stored ∧
      stored.observedAs (observed name) = child := by
  simp only [listing, List.mem_map, Prod.exists, ExtTreeMap.mem_toList_iff_getElem?_eq_some]

theorem Owned.slot_le {fleetName : String} (howned : world.Owned fleetName) {index : Nat}
    {child : VllmService} (hchild : world.children[childName fleetName index]? = some child) :
    index ≤ usizeMax ∧ child.name = childName fleetName index := by
  obtain ⟨other, hle, heq, hname, -⟩ := howned _ _ hchild
  rw [childName_inj] at heq
  exact ⟨heq ▸ hle, hname⟩

theorem Owned.current_lookup (howned : world.Owned metadata.name) (round : Round) (index : Nat) :
    (world.input metadata round).current[index]? = world.pin metadata.name index := by
  refine BTreeMap.lookup_collect_eq fun node => ?_
  rw [List.mem_filterMap, pin, Option.bind_eq_some_iff]
  constructor
  · rintro ⟨child, hmem, hpin⟩
    obtain ⟨name, stored, hstored, rfl⟩ := mem_listing.mp hmem
    obtain ⟨slot, hle, rfl, hname, pinned, hnode⟩ := howned name stored hstored
    rw [slotPin_observedAs, slotPin_of_named hle hname hnode] at hpin
    cases hpin
    exact ⟨stored, hstored, hnode⟩
  · rintro ⟨stored, hstored, hnode⟩
    obtain ⟨hle, hname⟩ := howned.slot_le hstored
    refine ⟨_, mem_listing.mpr ⟨_, stored, hstored, rfl⟩, ?_⟩
    rw [slotPin_observedAs, slotPin_of_named hle hname hnode]

theorem Owned.childReady_lookup (howned : world.Owned metadata.name) (round : Round)
    (index : Nat) :
    (world.input metadata round).childReady[childName metadata.name index]? =
      (world.children[childName metadata.name index]?).map fun _ =>
        round.ready metadata.name index := by
  refine BTreeMap.lookup_collect_eq fun ready => ?_
  rw [List.mem_map, Option.map_eq_some_iff]
  constructor
  · rintro ⟨child, hmem, heq⟩
    obtain ⟨name, stored, hstored, rfl⟩ := mem_listing.mp hmem
    obtain ⟨slot, -, rfl, hname, -⟩ := howned name stored hstored
    obtain ⟨hsame, rfl⟩ := Prod.mk.inj heq
    have hslot : childName metadata.name slot = childName metadata.name index :=
      hname.symm.trans hsame
    rw [hslot] at hstored
    exact ⟨stored, hstored, by rw [hslot]; rfl⟩
  · rintro ⟨stored, hstored, rfl⟩
    refine ⟨_, mem_listing.mpr ⟨_, stored, hstored, rfl⟩, ?_⟩
    obtain ⟨-, hname⟩ := howned.slot_le hstored
    exact Prod.ext hname rfl

/-! ## What a reconcile leaves -/

theorem performAll_childCalls_status (input : ReconcileInput) {calls : List Call}
    (hcalls : calls.Sublist input.childCalls) : (world.performAll calls).status = world.status := by
  have hkept : ∀ call ∈ calls, ∀ other : World, (other.perform call).status = other.status := by
    intro call hmem other
    have hcall := hcalls.subset hmem
    rw [ReconcileInput.childCalls, List.mem_append, List.mem_map, List.mem_map] at hcall
    rcases hcall with ⟨slot, -, rfl⟩ | ⟨slot, -, rfl⟩
    · rfl
    · rfl
  clear hcalls
  induction calls generalizing world with
  | nil => rfl
  | cons call calls ih =>
      have hrest := @ih (world.perform call) fun other hmem =>
        hkept other (List.mem_cons_of_mem _ hmem)
      exact hrest.trans (hkept call List.mem_cons_self world)

theorem input_displaced (world : World) (metadata : ObjectMeta) (round : Round) :
    (world.input metadata round).displaced = round.snapshot.displaced := rfl

theorem input_placements :
    (world.input metadata round).fleet.placements = world.placements := rfl

theorem isFull_input : (world.input metadata round).IsFull ↔ round.IsFull metadata := Iff.rfl

theorem input_isSupported (world : World) (hfull : round.IsFull metadata) :
    (world.input metadata round).strategy.isSupported = true := hfull.2.1

theorem reconcile_of_isFull (hfull : round.IsFull metadata) :
    world.reconcile metadata round =
      (world.performAll (world.input metadata round).childCalls).perform
        (.patchStatus (.full (world.input metadata round).fullStatus)) := by
  rw [reconcile, ReconcileInput.reconcileInner_of_isFull (isFull_input.mpr hfull)]
  exact performAll_append world _ _

theorem reconcile_status (hfull : round.IsFull metadata) :
    (world.reconcile metadata round).status =
      some (world.input metadata round).fullStatus := by
  rw [reconcile_of_isFull hfull]
  rfl

theorem reconcile_placements (hfull : round.IsFull metadata) :
    (world.reconcile metadata round).placements =
      (world.input metadata round).placements := by
  rw [placements, reconcile_status hfull]
  rfl

theorem reconcile_eq_attempt (world : World) (metadata : ObjectMeta) (round : Round) :
    ∃ made, world.reconcile metadata round = world.attempt metadata round made := by
  rw [reconcile]
  cases hcalls : reconcileInner (world.input metadata round) with
  | error error => exact ⟨0, by rw [attempt, hcalls]⟩
  | ok calls => exact ⟨calls.length, by rw [attempt, hcalls]; simp⟩

theorem placements_merge_message (status : Option FleetServiceStatus) (text selector : String)
    (first : Option (String × Int32)) :
    (StatusPatch.merge (.message text selector first) status).placements =
      (status.map FleetServiceStatus.placements).getD [] := by
  cases status <;> cases first <;> rfl

theorem attempt_of_not_isFull (hfull : ¬ round.IsFull metadata) (made : Nat) :
    (world.attempt metadata round made).children = world.children ∧
      (world.attempt metadata round made).placements = world.placements := by
  rw [attempt]
  rcases ReconcileInput.reconcileInner_of_not_isFull (isFull_input.not.mpr hfull) with
    ⟨error, heq⟩ | ⟨text, heq⟩
  · rw [heq]
    exact ⟨rfl, rfl⟩
  · rw [heq]
    cases made with
    | zero => exact ⟨rfl, rfl⟩
    | succ made =>
        dsimp only
        rw [List.take_succ_cons, List.take_nil]
        exact ⟨rfl, placements_merge_message _ _ _ _⟩

theorem reconcile_of_not_isFull (hfull : ¬ round.IsFull metadata) :
    (world.reconcile metadata round).children = world.children ∧
      (world.reconcile metadata round).placements = world.placements := by
  obtain ⟨made, heq⟩ := reconcile_eq_attempt world metadata round
  rw [heq]
  exact attempt_of_not_isFull hfull made

theorem children_take (world : World) (input : ReconcileInput) (made index : Nat) :
    (world.performAll (input.childCalls.take made)).children[
        childName input.fleet.name index]? =
      if index ∈ (input.removedSlots.take (made - input.slotNodes.length)).map Prod.fst then none
      else (((input.slotNodes.take made).lookup index).map fun node =>
        input.child (index, node)).or world.children[childName input.fleet.name index]? := by
  rw [ReconcileInput.childCalls_take, performAll_append, ReconcileInput.children_deletes,
    ReconcileInput.children_applies]
  exact ReconcileInput.slotNodes_sorted.sublist (List.take_sublist _ _)

theorem attempt_children (hfull : round.IsFull metadata) (made : Nat) :
    (world.attempt metadata round made).children =
      (world.performAll ((world.input metadata round).childCalls.take made)).children := by
  rw [attempt, ReconcileInput.reconcileInner_of_isFull (isFull_input.mpr hfull)]
  dsimp only
  rw [List.take_append, performAll_append]
  cases made - (world.input metadata round).childCalls.length with
  | zero => rfl
  | succ more => rw [List.take_succ_cons, List.take_nil]; rfl

theorem attempt_status (hfull : round.IsFull metadata) {made : Nat}
    (hmade : made ≤ (world.input metadata round).childCalls.length) :
    (world.attempt metadata round made).status = world.status := by
  rw [attempt, ReconcileInput.reconcileInner_of_isFull (isFull_input.mpr hfull)]
  dsimp only
  rw [List.take_append_of_le_length hmade]
  exact performAll_childCalls_status _ (List.take_sublist _ _)

/-- What any number of a reconcile's calls may do to a child. -/
theorem attempt_child (world : World) (metadata : ObjectMeta) (round : Round)
    (made index : Nat) :
    (¬ index < (world.input metadata round).desired ∧
        ((world.input metadata round).surplusOutcome index).2 = true ∧
        (world.attempt metadata round made).children[childName metadata.name index]? = none) ∨
      (world.attempt metadata round made).children[childName metadata.name index]? =
        world.children[childName metadata.name index]? ∨
      ∃ node, index < (world.input metadata round).desired ∧
        (world.input metadata round).pin index = some node ∧
        (world.attempt metadata round made).children[childName metadata.name index]? =
          some ((world.input metadata round).child (index, node)) := by
  by_cases hfull : round.IsFull metadata
  · have hchild := children_take world (world.input metadata round) made index
    rw [← attempt_children hfull] at hchild
    split at hchild
    · next hmem =>
        obtain ⟨⟨_, node⟩, htake, rfl⟩ := List.mem_map.mp hmem
        obtain ⟨-, hrange, houtcome⟩ :=
          (ReconcileInput.mem_removedSlots _ node).mp (List.mem_of_mem_take htake)
        exact .inl ⟨hrange, houtcome, hchild⟩
    · cases hlookup : ((world.input metadata round).slotNodes.take made).lookup index with
      | none =>
          rw [hlookup] at hchild
          exact .inr (.inl hchild)
      | some node =>
          rw [hlookup] at hchild
          have hmem : (index, node) ∈ (world.input metadata round).slotNodes :=
            List.mem_of_mem_take ((BTreeMap.lookup_eq_some_iff_mem
              (ReconcileInput.slotNodes_sorted.sublist (List.take_sublist _ _)) _ _).mp hlookup)
          obtain ⟨hrange, hpin⟩ := (ReconcileInput.mem_slotNodes index node).mp hmem
          exact .inr (.inr ⟨node, hrange, hpin, hchild⟩)
  · right
    left
    rw [(attempt_of_not_isFull hfull made).1]

theorem Owned.attempt (howned : world.Owned metadata.name) (made : Nat) :
    (world.attempt metadata round made).Owned metadata.name := by
  by_cases hfull : round.IsFull metadata
  · intro name child hchild
    rw [attempt_children hfull] at hchild
    refine howned.performAll (fun child hmem => ?_) name child hchild
    have hcall := List.mem_of_mem_take hmem
    rw [ReconcileInput.childCalls, List.mem_append, List.mem_map, List.mem_map] at hcall
    rcases hcall with ⟨⟨index, node⟩, hslot, heq⟩ | ⟨_, -, heq⟩
    · obtain ⟨hrange, -⟩ := (ReconcileInput.mem_slotNodes index node).mp hslot
      have hlt := @ReconcileInput.desired_lt (world.input metadata round)
      cases heq
      exact ⟨index, by unfold usizeMax; omega, rfl, node, rfl⟩
    · cases heq
  · intro name child hchild
    rw [(attempt_of_not_isFull hfull made).1] at hchild
    exact howned name child hchild

theorem Owned.reconcile (howned : world.Owned metadata.name) :
    (world.reconcile metadata round).Owned metadata.name := by
  obtain ⟨made, heq⟩ := reconcile_eq_attempt world metadata round
  rw [heq]
  exact howned.attempt made

theorem Owned.pin_eq_none (howned : world.Owned metadata.name) (index : Nat) :
    world.pin metadata.name index = none ↔
      world.children[childName metadata.name index]? = none := by
  rw [pin]
  cases hchild : world.children[childName metadata.name index]? with
  | none => simp
  | some child =>
      obtain ⟨_, -, -, -, node, hnode⟩ := howned _ _ hchild
      simp [hnode]

theorem reconcile_lookup (hfull : round.IsFull metadata) (index : Nat) :
    (world.reconcile metadata round).children[childName metadata.name index]? =
      if index ∈ (world.input metadata round).removedSlots.map Prod.fst then none
      else ((if index < (world.input metadata round).desired then
        (world.input metadata round).pin index else none).map fun node =>
          (world.input metadata round).child (index, node)).or
            world.children[childName metadata.name index]? := by
  have hchild := children_take world (world.input metadata round)
    (world.input metadata round).childCalls.length index
  have hlength : (world.input metadata round).childCalls.length =
      (world.input metadata round).slotNodes.length +
        (world.input metadata round).removedSlots.length := by
    simp [ReconcileInput.childCalls]
  have hperformed : (world.reconcile metadata round).children =
      (world.performAll (world.input metadata round).childCalls).children := by
    rw [reconcile_of_isFull hfull]
    rfl
  rw [List.take_length, ← hperformed, hlength, Nat.add_sub_cancel_left, List.take_length,
    List.take_of_length_le (Nat.le_add_right _ _), ReconcileInput.slotNodes_lookup] at hchild
  exact hchild

theorem Owned.reconcile_child (howned : world.Owned metadata.name)
    (hfull : round.IsFull metadata) (index : Nat) :
    (world.reconcile metadata round).children[childName metadata.name index]? =
      if index < (world.input metadata round).desired then
        ((world.input metadata round).pin index).map fun node =>
          (world.input metadata round).child (index, node)
      else if ((world.input metadata round).surplusOutcome index).2 then none
      else world.children[childName metadata.name index]? := by
  refine (reconcile_lookup hfull index).trans ?_
  have hremoved : index ∈ (world.input metadata round).removedSlots.map Prod.fst ↔
      (∃ node, world.pin metadata.name index = some node) ∧
        ¬ index < (world.input metadata round).desired ∧
        ((world.input metadata round).surplusOutcome index).2 = true := by
    simp only [List.mem_map, Prod.exists, exists_and_right,
      ReconcileInput.mem_removedSlots, howned.current_lookup _, exists_eq_right]
  by_cases hrange : index < (world.input metadata round).desired
  · rw [if_neg (fun hmem => (hremoved.mp hmem).2.1 hrange), if_pos hrange, if_pos hrange]
    cases hpin : (world.input metadata round).pin index with
    | some node => rfl
    | none =>
        have hcurrent := ReconcileInput.current_of_pin_eq_none hpin
        rw [howned.current_lookup _, howned.pin_eq_none] at hcurrent
        exact hcurrent
  · rw [if_neg hrange, if_neg hrange]
    cases hpin : world.pin metadata.name index with
    | none =>
        have hnone : world.children[childName metadata.name index]? = none :=
          (howned.pin_eq_none index).mp hpin
        rw [if_neg (fun hmem => by simpa [hpin] using (hremoved.mp hmem).1), hnone]
        exact (ite_self none).symm
    | some node =>
        by_cases houtcome : ((world.input metadata round).surplusOutcome index).2 = true
        · rw [if_pos (hremoved.mpr ⟨⟨node, hpin⟩, hrange, houtcome⟩), if_pos houtcome]
        · rw [if_neg (fun hmem => houtcome (hremoved.mp hmem).2.2), if_neg houtcome]
          rfl

theorem Owned.reconcile_pin (howned : world.Owned metadata.name)
    (hfull : round.IsFull metadata) (index : Nat) :
    (world.reconcile metadata round).pin metadata.name index =
      if index < (world.input metadata round).desired then
        (world.input metadata round).pin index
      else if ((world.input metadata round).surplusOutcome index).2 then none
      else world.pin metadata.name index := by
  rw [World.pin, howned.reconcile_child hfull]
  split
  · cases (world.input metadata round).pin index <;> rfl
  · split
    · rfl
    · rfl

theorem Owned.childReady_getD (howned : world.Owned metadata.name) (round : Round)
    {index : Nat} {node : String} (hpin : world.pin metadata.name index = some node) :
    ((world.input metadata round).childReady[childName metadata.name index]?).getD false =
      round.ready metadata.name index := by
  obtain ⟨child, hchild, -⟩ := Option.bind_eq_some_iff.mp hpin
  rw [howned.childReady_lookup, hchild]
  rfl

theorem Owned.placementOf_kept (howned : world.Owned metadata.name)
    (hfull : round.IsFull metadata) {index : Nat} {node : String}
    (hbefore : world.pin metadata.name index = some node)
    (hafter : (world.reconcile metadata round).pin metadata.name index = some node) :
    ∃ placement, (world.input metadata round).placementOf index = some placement ∧
      placement.nodeRef = node ∧
      placement.phase = (world.input metadata round).advancedPhase index
        (decide (index < (world.input metadata round).desired ∧
          node ∈ round.snapshot.displaced)) := by
  have hcurrent := (howned.current_lookup round index).trans hbefore
  rw [howned.reconcile_pin hfull] at hafter
  by_cases hrange : index < (world.input metadata round).desired
  · rw [if_pos hrange] at hafter
    refine ⟨(world.input metadata round).appliedPlacement (index, node), ?_, rfl, ?_⟩
    · rw [ReconcileInput.placementOf, if_pos hrange, hafter]
      rfl
    · have hpreempted : index ∈ (world.input metadata round).preemptedSlots ↔
          index < (world.input metadata round).desired ∧ node ∈ round.snapshot.displaced := by
        rw [ReconcileInput.mem_preemptedSlots, hcurrent, input_displaced]
        simp [hrange]
      rw [ReconcileInput.appliedPlacement]
      dsimp only
      rw [decide_eq_decide.mpr hpreempted]
  · rw [if_neg hrange] at hafter
    refine ⟨(world.input metadata round).heldPlacement (index, node), ?_, rfl, ?_⟩
    · rw [ReconcileInput.placementOf, if_neg hrange, hcurrent]
      split at hafter
      · cases hafter
      · next hheld => rw [if_neg hheld]; rfl
    · rw [decide_eq_false (fun h => hrange h.1)]
      rfl

theorem Owned.moved_of_changed (howned : world.Owned metadata.name)
    (hfull : round.IsFull metadata) {index : Nat} {before after : String}
    (hbefore : world.pin metadata.name index = some before)
    (hafter : (world.reconcile metadata round).pin metadata.name index = some after)
    (hmoved : before ≠ after) :
    index < (world.input metadata round).desired ∧
      (world.input metadata round).pin index = some after ∧
      index ∈ (world.input metadata round).movedSlots ∧
      before ∈ (world.input metadata round).displaced := by
  have hcurrent := (howned.current_lookup round index).trans hbefore
  rw [howned.reconcile_pin hfull] at hafter
  by_cases hrange : index < (world.input metadata round).desired
  · rw [if_pos hrange] at hafter
    have hchanged : (world.input metadata round).pin index ≠ some before := by
      rw [hafter]
      simpa using hmoved.symm
    exact ⟨hrange, hafter, ReconcileInput.moved_of_repinned hcurrent hchanged⟩
  · rw [if_neg hrange, hbefore] at hafter
    split at hafter
    · cases hafter
    · exact absurd (Option.some.inj hafter) hmoved

theorem Owned.placementOf_moved (howned : world.Owned metadata.name)
    (hfull : round.IsFull metadata) {index : Nat} {before after : String}
    (hbefore : world.pin metadata.name index = some before)
    (hafter : (world.reconcile metadata round).pin metadata.name index = some after)
    (hmoved : before ≠ after) :
    ∃ placement, (world.input metadata round).placementOf index = some placement ∧
      placement.nodeRef = after ∧ placement.phase = "Draining" := by
  obtain ⟨hrange, hpin, -, hdisplaced⟩ := howned.moved_of_changed hfull hbefore hafter hmoved
  have hpreempted : index ∈ (world.input metadata round).preemptedSlots :=
    (ReconcileInput.mem_preemptedSlots index).mpr
      ⟨before, (howned.current_lookup round index).trans hbefore, hdisplaced⟩
  refine ⟨(world.input metadata round).appliedPlacement (index, after), ?_, rfl, ?_⟩
  · rw [ReconcileInput.placementOf, if_pos hrange, hpin]
    rfl
  · simp [ReconcileInput.appliedPlacement, ReconcileInput.advancedPhase, hpreempted]

/-- A child is deleted when its slot has no node afterwards. -/
theorem Owned.deleted_iff (howned : world.Owned metadata.name) (hfull : round.IsFull metadata)
    {index : Nat} {node : String} (hbefore : world.pin metadata.name index = some node) :
    .deleteChild (childName metadata.name index) ∈ (world.input metadata round).childCalls ↔
      (world.reconcile metadata round).pin metadata.name index = none := by
  have hcurrent := (howned.current_lookup round index).trans hbefore
  have hcalls : .deleteChild (childName metadata.name index) ∈
      (world.input metadata round).childCalls ↔
        (index, node) ∈ (world.input metadata round).removedSlots := by
    rw [ReconcileInput.childCalls, List.mem_append, List.mem_map, List.mem_map]
    constructor
    · rintro (⟨slot, -, heq⟩ | ⟨⟨other, found⟩, hslot, heq⟩)
      · cases heq
      · obtain rfl : other = index := childName_injective _ (Call.deleteChild.inj heq)
        have hfound := ((ReconcileInput.mem_removedSlots other found).mp hslot).1
        rw [hcurrent, Option.some.injEq] at hfound
        exact hfound ▸ hslot
    · intro hslot
      exact .inr ⟨(index, node), hslot, rfl⟩
  rw [hcalls, ReconcileInput.mem_removedSlots, howned.reconcile_pin hfull]
  by_cases hrange : index < (world.input metadata round).desired
  · have hsome : (world.input metadata round).pin index ≠ none := by
      intro hnone
      rw [ReconcileInput.current_of_pin_eq_none hnone] at hcurrent
      cases hcurrent
    simp [hrange, hsome]
  · simp [hrange, hcurrent, hbefore]

/-! ## Slots of an `i32` -/

/-- Every slot with a child is below some replica count. -/
def SlotsInRange (world : World) (fleetName : String) : Prop :=
  ∀ index node, world.pin fleetName index = some node → index < 2 ^ 31 - 1

theorem SlotsInRange.attempt (hslots : world.SlotsInRange metadata.name) (made : Nat) :
    (world.attempt metadata round made).SlotsInRange metadata.name := by
  intro index node hpin
  rcases attempt_child world metadata round made index with ⟨-, -, hnone⟩ | hsame |
    ⟨target, hrange, -, -⟩
  · rw [pin, hnone] at hpin
    cases hpin
  · rw [pin, hsame] at hpin
    exact hslots index node hpin
  · have hbound := @ReconcileInput.desired_lt (world.input metadata round)
    omega

theorem SlotsInRange.current (hslots : world.SlotsInRange metadata.name)
    (howned : world.Owned metadata.name) (index : Nat) (node : String)
    (hcurrent : (world.input metadata round).current[index]? = some node) :
    index < 2 ^ 31 - 1 := by
  rw [howned.current_lookup] at hcurrent
  exact hslots index node hcurrent

end World

/-! ## A small fleet -/

namespace Sample

def metadata : ObjectMeta where
  name := "fleet"
  ns := some "default"
  uid := "uid"
  labels := none
  ownerReferences := []

def spec (replicas stableReconcilesRequired maxConcurrentReschedules : Int32) :
    FleetServiceSpec where
  model := "model"
  replicas := replicas
  template := ⟨none, [], none, none, 0, "/health", "image", none, none⟩
  nodePool := ⟨∅⟩
  placement := ⟨.warmthFirst, none⟩
  hysteresis := ⟨stableReconcilesRequired, maxConcurrentReschedules⟩

def nodeState (name : String) (notice : Bool) : NodeState where
  metadata := ⟨name, none, "", none, []⟩
  status := some ⟨0, "", .cold, none, none, none, none, none, none, none, none, none,
    ⟨true, notice, ""⟩⟩

/-- The nodes that report, those of them with a preemption notice, and no Node
objects. -/
def snapshot (names noticed : List String) : Snapshot where
  states := names.map fun name => nodeState name (decide (name ∈ noticed))
  clock := ⟨0, fun _ => none⟩
  nodes := some []
  allServices := some []

theorem snapshot_isDisplaced (names noticed : List String) (node : String) :
    (snapshot names noticed).IsDisplaced node ↔ node ∈ names ∧ node ∈ noticed := by
  simp [Snapshot.IsDisplaced, snapshot, nodeState, preemptionNoticeDetected, NodeState.name]

def round (spec : FleetServiceSpec) (snapshot : Snapshot) (ready : List String) : Round where
  spec := spec
  snapshot := snapshot
  observed := fun name => if name ∈ ready then some ⟨"Ready", ""⟩ else none

theorem round_isFull {spec : FleetServiceSpec} {snapshot : Snapshot} {ready : List String}
    (hsupported : spec.placement.strategy.isSupported = true)
    (hcandidates : snapshot.poolCandidates spec.nodePool.selector ≠ []) :
    (round spec snapshot ready).IsFull metadata :=
  ⟨rfl, hsupported, hcandidates⟩

def empty : World := ⟨none, ∅⟩

theorem empty_owned (fleetName : String) : empty.Owned fleetName := by
  intro name child hchild
  rw [show empty.children = (∅ : BTreeMap String VllmService) from rfl,
    ExtTreeMap.getElem?_empty] at hchild
  cases hchild

def fleetOfOne : FleetService := ⟨metadata, spec 1 1 1, none⟩

def childOn (node : String) : VllmService := ownedVllmService fleetOfOne "default" 0 node

def pinned (slots : List (Nat × String)) : World :=
  empty.performAll (slots.map fun slot =>
    .applyChild (ownedVllmService fleetOfOne "default" slot.1 slot.2))

theorem pinned_owned {slots : List (Nat × String)} (hslots : ∀ slot ∈ slots, slot.1 ≤ usizeMax) :
    (pinned slots).Owned metadata.name := by
  refine (empty_owned metadata.name).performAll fun child hchild => ?_
  obtain ⟨slot, hslot, heq⟩ := List.mem_map.mp hchild
  cases heq
  exact ⟨slot.1, hslots slot hslot, rfl, slot.2, rfl⟩

theorem pinned_slot {slots : List (Nat × String)} {index : Nat} {node : String}
    (hpin : (pinned slots).pin metadata.name index = some node) : (index, node) ∈ slots := by
  obtain ⟨child, hchild, hnode⟩ := Option.bind_eq_some_iff.mp hpin
  refine @World.performAll_children empty
    (fun name child => ∀ index, name = childName metadata.name index →
      child.spec.nodeName = some node → (index, node) ∈ slots)
    _ ?_ ?_ _ child hchild index rfl hnode
  · intro name child hlookup
    rw [show empty.children = (∅ : BTreeMap String VllmService) from rfl,
      ExtTreeMap.getElem?_empty] at hlookup
    cases hlookup
  · intro child hmem other hname hnode
    obtain ⟨slot, hslot, heq⟩ := List.mem_map.mp hmem
    cases heq
    cases hnode
    rw [← (childName_inj _ _ _).mp hname]
    exact hslot

theorem pinned_slotsInRange {slots : List (Nat × String)}
    (hslots : ∀ slot ∈ slots, slot.1 < 2 ^ 31 - 1) :
    (pinned slots).SlotsInRange metadata.name :=
  fun index node hpin => hslots (index, node) (pinned_slot hpin)

end Sample

end VllmColdstartOperator
