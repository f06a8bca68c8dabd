import VllmColdstartOperator.Guarantees.DecidedOn
import VllmColdstartOperator.Guarantees.Drain
import VllmColdstartOperator.Guarantees.ReadyOnNode

/-!
# A rollout, reconcile by reconcile

What one reconcile does for a fleet once the notices stay as they are and a node
without one has room: every slot gets a node, the slots on displaced nodes run
out, the moves are written off, the surplus waits or goes, and with every child
Ready the fleet is up.  A child's own reconcile that finds a ready pod writes
Ready, since no child has more pods than one replica and its surge.
-/

namespace VllmColdstartOperator

open Foundation Std

/-! ## The pods of a child -/

namespace ServiceState

structure Bounded (state : ServiceState) : Prop where
  pods : state.pods.length ≤ 2
  single : ∀ deployment, state.deployment = some deployment →
    deployment.spec.replicas = 1 ∧ deployment.spec.strategy.maxSurge = 1

namespace Bounded

variable {state : ServiceState}

theorem initial : Bounded {} where
  pods := Nat.zero_le 2
  single := by
    intro deployment hdeployment
    cases hdeployment

theorem performAll (hbounded : state.Bounded) {calls : List VllmServiceController.Call}
    (hsingle : ∀ deployment, .applyDeployment deployment ∈ calls →
      deployment.spec.replicas = 1 ∧ deployment.spec.strategy.maxSurge = 1) :
    (calls.foldl ServiceState.perform state).Bounded := by
  induction calls generalizing state with
  | nil => exact hbounded
  | cons call calls ih =>
      refine ih ?_ fun deployment hmem => hsingle deployment (List.mem_cons_of_mem call hmem)
      cases call with
      | applyDeployment deployment =>
          refine ⟨hbounded.pods, fun applied happlied => ?_⟩
          rw [← Option.some.inj happlied]
          exact hsingle deployment List.mem_cons_self
      | applyService service => exact hbounded
      | applyNetworkPolicy policy => exact hbounded
      | patchStatus status => exact ⟨hbounded.pods, hbounded.single⟩

theorem attempt (hbounded : state.Bounded)
    (environment : VllmServiceController.Environment) {child : VllmService}
    (hone : child.spec.replicas = 1) (made : Nat) :
    (state.attempt environment child made).Bounded := by
  unfold ServiceState.attempt
  split
  · next calls hcalls =>
      refine hbounded.performAll fun deployment hmem => ?_
      exact applied_single hone hcalls (List.mem_of_mem_take hmem)
  · exact hbounded

theorem reconcile (hbounded : state.Bounded)
    (environment : VllmServiceController.Environment) {child : VllmService}
    (hone : child.spec.replicas = 1) : (state.reconcile environment child).Bounded := by
  obtain ⟨made, heq⟩ := state.reconcile_eq_attempt environment child
  rw [heq]
  exact hbounded.attempt environment hone made

theorem createPod (hbounded : state.Bounded) (node : String) :
    (state.createPod node).Bounded := by
  unfold ServiceState.createPod
  split
  · exact hbounded
  · next deployment hdeployment =>
      dsimp only
      split
      · next hcreate =>
          obtain ⟨hreplicas, hsurge⟩ := hbounded.single deployment hdeployment
          have hroom := hcreate.2.2
          rw [hreplicas, hsurge] at hroom
          constructor
          · have hlength : (state.pods.length : Int) < 2 := hroom
            simp only [List.length_append, List.length_singleton]
            omega
          · exact hbounded.single
      · exact hbounded

theorem setReady (hbounded : state.Bounded) (position : Nat) (ready : Bool) :
    (state.setReady position ready).Bounded where
  pods := by
    simp only [ServiceState.setReady, List.length_modify]
    exact hbounded.pods
  single := hbounded.single

theorem removePod (hbounded : state.Bounded) (position : Nat) :
    (state.removePod position).Bounded := by
  unfold ServiceState.removePod
  split
  · split
    · constructor
      · exact (List.eraseIdx_sublist _ _).length_le.trans hbounded.pods
      · exact hbounded.single
    · exact hbounded
  · exact hbounded

theorem writes_ready (hbounded : state.Bounded)
    (environment : VllmServiceController.Environment) {child : VllmService} {ns : String}
    (hns : child.metadata.ns = some ns) (hone : child.spec.replicas = 1)
    (hready : ∃ pod ∈ state.pods, pod.ready = true) :
    ∃ status, (state.reconcile environment child).status = some status ∧
      status.phase = "Ready" := by
  obtain ⟨deployment, -, hwritten⟩ := state.reconcile_eq environment hns
  refine ⟨_, congrArg ServiceState.status hwritten, ?_⟩
  have hsome : 0 < state.pods.countP Pod.ready := List.countP_pos_iff.mpr hready
  have hfew : state.pods.countP Pod.ready ≤ 2 := List.countP_le_length.trans hbounded.pods
  dsimp only
  rw [hone, readyReplicas]
  interval_cases state.pods.countP Pod.ready
  · decide
  · decide

end Bounded

end ServiceState

/-! ## What holds along any run -/

namespace Cluster

variable {cluster : Cluster} {metadata : ObjectMeta}

/-- Children that vanish take what stands beside them along. -/
def lose (cluster : Cluster) (gone : String → Bool) : Cluster where
  world := cluster.world.lose gone
  services := cluster.services.filter fun name _ => !gone name

/-- What events in any environments, reconciles cut anywhere and lost children
may leave of a fleet with nothing. -/
inductive Arises (metadata : ObjectMeta) : Cluster → Prop where
  | empty : Arises metadata empty
  | next {cluster : Cluster} (environment : VllmServiceController.Environment) (event : Event)
      (harises : Arises metadata cluster) :
      Arises metadata (cluster.next metadata environment event)
  | cutFleet {cluster : Cluster} (spec : FleetServiceSpec) (snapshot : Snapshot) (made : Nat)
      (harises : Arises metadata cluster) :
      Arises metadata (cluster.attemptFleet metadata spec snapshot made)
  | cutService {cluster : Cluster} (environment : VllmServiceController.Environment)
      (name : String) (made : Nat) (harises : Arises metadata cluster) :
      Arises metadata (cluster.attemptService environment name made)
  | lost {cluster : Cluster} (gone : String → Bool) (harises : Arises metadata cluster) :
      Arises metadata (cluster.lose gone)

theorem lose_stateOf (gone : String → Bool) (name : String) :
    (cluster.lose gone).stateOf name = {} ∨
      (cluster.lose gone).stateOf name = cluster.stateOf name := by
  have hlookup : (cluster.lose gone).services[name]? =
      (cluster.services[name]?).filter fun _ => !gone name :=
    ExtTreeMap.getElem?_filter'
  unfold stateOf
  rw [hlookup]
  cases cluster.services[name]? with
  | none => exact .inl rfl
  | some state =>
      rw [Option.filter_some]
      split
      · exact .inr rfl
      · exact .inl rfl

structure Sound (metadata : ObjectMeta) (cluster : Cluster) : Prop where
  owned : cluster.world.Owned metadata.name
  slots : cluster.world.SlotsInRange metadata.name
  single : ∀ (name : String) (child : VllmService), cluster.world.children[name]? = some child →
    child.spec.replicas = 1 ∧ ∃ ns, child.metadata.ns = some ns
  bounded : ∀ name, (cluster.stateOf name).Bounded

theorem empty_sound (metadata : ObjectMeta) : Sound metadata empty where
  owned := (empty_readyInv metadata).owned
  slots := by
    intro index node hpin
    simp [empty, World.pin] at hpin
  single := by
    intro name child hchild
    simp [empty] at hchild
  bounded := by
    intro name
    simp only [stateOf, empty, ExtTreeMap.getElem?_empty]
    exact ServiceState.Bounded.initial

namespace Sound

theorem cutFleet (hsound : Sound metadata cluster) (spec : FleetServiceSpec)
    (snapshot : Snapshot) (made : Nat) :
    Sound metadata (cluster.attemptFleet metadata spec snapshot made) := by
  have hworld := @attemptFleet_world cluster metadata spec snapshot made
  constructor
  · rw [hworld]
    exact hsound.owned.attempt made
  · rw [hworld]
    exact hsound.slots.attempt made
  · intro name child hchild
    rw [hworld] at hchild
    obtain ⟨index, -, rfl, -⟩ := hsound.owned.attempt made name child hchild
    rcases World.attempt_child cluster.world metadata (cluster.round spec snapshot) made index with
      ⟨-, -, hnone⟩ | hsame | ⟨node, -, -, hnew⟩
    · rw [hnone] at hchild
      cases hchild
    · rw [hsame] at hchild
      exact hsound.single _ child hchild
    · rw [hnew, Option.some.injEq] at hchild
      rw [← hchild]
      exact ⟨rfl, _, rfl⟩
  · intro name
    rcases @attemptFleet_stateOf cluster metadata spec snapshot made name with heq | heq
    · rw [heq]
      exact ServiceState.Bounded.initial
    · rw [heq]
      exact hsound.bounded name

theorem cutService (hsound : Sound metadata cluster)
    (environment : VllmServiceController.Environment) (name : String) (made : Nat) :
    Sound metadata (cluster.attemptService environment name made) := by
  unfold attemptService
  cases hchild : cluster.world.children[name]? with
  | none => exact hsound
  | some child =>
      refine ⟨hsound.owned, hsound.slots, hsound.single, fun other => ?_⟩
      dsimp only
      rw [stateOf, BTreeMap.lookup_insert]
      split
      · exact (hsound.bounded name).attempt environment (hsound.single name child hchild).1 made
      · exact hsound.bounded other

theorem lost (hsound : Sound metadata cluster) (gone : String → Bool) :
    Sound metadata (cluster.lose gone) := by
  constructor
  · exact hsound.owned.lose gone
  · exact fun index node hpin => hsound.slots index node (World.pin_of_lose hpin)
  · exact fun name child hchild => hsound.single name child (World.lose_child gone hchild)
  · intro name
    rcases @lose_stateOf cluster gone name with heq | heq
    · rw [heq]
      exact ServiceState.Bounded.initial
    · rw [heq]
      exact hsound.bounded name

theorem pods (hsound : Sound metadata cluster) (name : String)
    {change : ServiceState → ServiceState}
    (hchange : ∀ state : ServiceState, state.Bounded → (change state).Bounded) :
    Sound metadata (cluster.changePods name change) := by
  have hworld := @changePods_world cluster name change
  constructor
  · rw [hworld]
    exact hsound.owned
  · rw [hworld]
    exact hsound.slots
  · rw [hworld]
    exact hsound.single
  · intro other
    rcases @changePods_stateOf cluster change name other with heq | ⟨-, heq⟩
    · rw [heq]
      exact hsound.bounded other
    · rw [heq]
      exact hchange _ (hsound.bounded other)

theorem next (hsound : Sound metadata cluster)
    (environment : VllmServiceController.Environment) (event : Event) :
    Sound metadata (cluster.next metadata environment event) := by
  cases event with
  | fleet spec snapshot =>
      obtain ⟨made, heq⟩ := cluster.reconcileFleet_eq_attempt metadata spec snapshot
      rw [Cluster.next, heq]
      exact hsound.cutFleet spec snapshot made
  | service name =>
      obtain ⟨made, heq⟩ := cluster.reconcileService_eq_attempt environment name
      rw [Cluster.next, heq]
      exact hsound.cutService environment name made
  | createPod name node => exact hsound.pods name fun _ hbounded => hbounded.createPod node
  | setReady name position ready =>
      exact hsound.pods name fun _ hbounded => hbounded.setReady position ready
  | removePod name position => exact hsound.pods name fun _ hbounded => hbounded.removePod position

end Sound

theorem Arises.sound (harises : cluster.Arises metadata) : Sound metadata cluster := by
  induction harises with
  | empty => exact empty_sound metadata
  | next environment event _ ih => exact ih.next environment event
  | cutFleet spec snapshot made _ ih => exact ih.cutFleet spec snapshot made
  | cutService environment name made _ ih => exact ih.cutService environment name made
  | lost gone _ ih => exact ih.lost gone

end Cluster

/-! ## A fleet reconcile once the notices stay -/

/-- A reconcile that plans for these replicas, may move, reads these nodes as
displaced and finds room on another. -/
structure Round.Settled (metadata : ObjectMeta) (replicas : Int32) (displaced : String → Prop)
    (round : Round) : Prop where
  full : round.IsFull metadata
  replicas : round.spec.replicas = replicas
  allowed : 0 < round.spec.hysteresis.maxConcurrentReschedules.toInt
  displaced : ∀ node, node ∈ round.snapshot.displaced ↔ displaced node
  survivor : round.HasSurvivor

namespace World

/-- Every slot below the count has a child on a node that is not displaced. -/
def Placed (world : World) (fleetName : String) (count : Nat) (displaced : String → Prop) : Prop :=
  ∀ index < count, ∃ node, world.pin fleetName index = some node ∧ ¬ displaced node

/-- No slot below the count is written as leaving its node. -/
def MovesWrittenOff (world : World) (fleetName : String) (count : Nat) : Prop :=
  ∀ index < count, world.writtenPhase (childName fleetName index) ≠ some "Draining" ∧
    world.writtenPhase (childName fleetName index) ≠ some "Preempted"

def WithoutSurplus (world : World) (fleetName : String) (count : Nat) : Prop :=
  ∀ index, count ≤ index → world.pin fleetName index = none

/-- The children are those of the slots below the count, and the status says of
each that it is Ready, on a node that is not displaced. -/
structure IsUp (world : World) (fleetName : String) (replicas : Int32)
    (displaced : String → Prop) : Prop where
  children : ∀ name, (∃ child, world.children[name]? = some child) ↔
    ∃ index < replicas.toInt.toNat, name = childName fleetName index
  status : ∃ status, world.status = some status ∧ status.phase = "Ready" ∧
    status.readyReplicas.toInt = replicas.toInt.toNat ∧ status.desiredReplicas = replicas ∧
    status.replicas.toInt = replicas.toInt.toNat ∧ status.warmingReplicas = 0 ∧
    status.activeReschedules = 0
  listed : world.placements.map PlacementStatus.vllmServiceRef =
    (List.range replicas.toInt.toNat).map (childName fleetName)
  served : ∀ placement ∈ world.placements, placement.phase = "Ready" ∧
    ¬ displaced placement.nodeRef ∧ ∃ child,
      world.children[placement.vllmServiceRef]? = some child ∧
        child.spec.nodeName = some placement.nodeRef

end World

namespace Round.Settled

variable {metadata : ObjectMeta} {replicas : Int32} {displaced : String → Prop} {round : Round}
  {world : World} (hsettled : round.Settled metadata replicas displaced)

include hsettled

theorem desired_eq (world : World) :
    (world.input metadata round).desired = replicas.toInt.toNat :=
  congrArg (fun replicas : Int32 => replicas.toInt.toNat) hsettled.replicas

variable (howned : world.Owned metadata.name) {index : Nat}
  (hindex : index < replicas.toInt.toNat)

include howned hindex

theorem reconcile_pin : (world.reconcile metadata round).pin metadata.name index =
    (world.input metadata round).pin index := by
  rw [howned.reconcile_pin hsettled.full, hsettled.desired_eq, if_pos hindex]

theorem pinned : ∃ node, (world.reconcile metadata round).pin metadata.name index = some node := by
  rw [hsettled.reconcile_pin howned hindex]
  apply ReconcileInput.pin_isSome (World.input_isSupported world hsettled.full)
  · exact World.healthyCandidates_ne_nil world metadata hsettled.survivor
  · rw [hsettled.desired_eq]
    exact hindex

theorem pin_stays {node : String} (hpin : world.pin metadata.name index = some node)
    (hsafe : ¬ displaced node) :
    (world.reconcile metadata round).pin metadata.name index = some node := by
  rw [hsettled.reconcile_pin howned hindex]
  have hcurrent := (howned.current_lookup round index).trans hpin
  by_contra hchanged
  have hleft := (ReconcileInput.moved_of_repinned hcurrent hchanged).2
  exact hsafe ((hsettled.displaced node).mp hleft)

end Round.Settled

namespace World.Placed

variable {metadata : ObjectMeta} {replicas : Int32} {displaced : String → Prop} {round : Round}
  {world : World} (hplaced : world.Placed metadata.name replicas.toInt.toNat displaced)
  (hsettled : round.Settled metadata replicas displaced) (howned : world.Owned metadata.name)

include hplaced hsettled howned

theorem reconcile :
    (world.reconcile metadata round).Placed metadata.name replicas.toInt.toNat displaced := by
  intro index hindex
  obtain ⟨node, hpin, hsafe⟩ := hplaced index hindex
  exact ⟨node, hsettled.pin_stays howned hindex hpin hsafe, hsafe⟩

theorem placementOf_eq {index : Nat} (hindex : index < replicas.toInt.toNat) :
    ∃ placement, (world.input metadata round).placementOf index = some placement ∧
      ¬ displaced placement.nodeRef ∧
      placement.phase = (world.input metadata round).advancedPhase index false := by
  obtain ⟨node, hpin, hsafe⟩ := hplaced index hindex
  have hafter := hsettled.pin_stays howned hindex hpin hsafe
  obtain ⟨placement, hplacement, hnode, hphase⟩ :=
    howned.placementOf_kept hsettled.full hpin hafter
  have hkept : ¬ (index < (world.input metadata round).desired ∧
      node ∈ round.snapshot.displaced) := by
    rintro ⟨-, hleft⟩
    exact hsafe ((hsettled.displaced node).mp hleft)
  rw [decide_eq_false hkept] at hphase
  rw [← hnode] at hsafe
  exact ⟨placement, hplacement, hsafe, hphase⟩

theorem movesWrittenOff :
    (world.reconcile metadata round).MovesWrittenOff metadata.name replicas.toInt.toNat := by
  intro index hindex
  obtain ⟨placement, hplacement, -, hphase⟩ := hplaced.placementOf_eq hsettled howned hindex
  rw [World.writtenPhase_reconcile hsettled.full, hplacement, Option.map_some, hphase]
  rw [ne_eq, ne_eq, Option.some.injEq, Option.some.injEq, ReconcileInput.advancedPhase,
    placementPhaseFor_draining_iff]
  refine ⟨Bool.false_ne_true, fun hpreempted => ?_⟩
  have hwritten : "Preempted" ∈ placementPhases := hpreempted ▸ placementPhaseFor_mem _ _ _
  exact absurd hwritten (by decide)

end World.Placed

/-! ## The reconcile that writes Ready -/

section Up

variable {metadata : ObjectMeta} {replicas : Int32} {displaced : String → Prop} {round : Round}
  {world : World}

theorem World.Placed.comesReady
    (hplaced : world.Placed metadata.name replicas.toInt.toNat displaced)
    (howned : world.Owned metadata.name)
    (hwritten : world.MovesWrittenOff metadata.name replicas.toInt.toNat)
    {index : Nat} (hindex : index < replicas.toInt.toNat)
    (hready : round.ready metadata.name index = true) :
    (world.input metadata round).comesReady index = true := by
  obtain ⟨node, hpin, -⟩ := hplaced index hindex
  have hchild : ((world.input metadata round).childReady[
      childName metadata.name index]?).getD false = true :=
    (howned.childReady_getD round hpin).trans hready
  obtain ⟨hdraining, hpreempted⟩ := hwritten index hindex
  rw [← World.prevPhase_lookup world metadata round] at hdraining hpreempted
  unfold ReconcileInput.comesReady
  dsimp only
  rw [show (world.input metadata round).fleet.name = metadata.name from rfl, hchild,
    Bool.true_and, Bool.and_eq_true, decide_eq_true_eq, decide_eq_true_eq]
  cases hprev : (world.input metadata round).prevPhase[childName metadata.name index]? with
  | none =>
      constructor
      · decide
      · decide
  | some phase =>
      rw [hprev, ne_eq, Option.some.injEq] at hdraining hpreempted
      exact ⟨hdraining, hpreempted⟩

theorem ReconcileInput.fullStatus_of_ready {input : ReconcileInput}
    (hlength : input.placements.length = input.desired)
    (hready : ∀ placement ∈ input.placements, placement.phase = "Ready") :
    input.fullStatus.phase =
        fleetPhaseFor input.fleet.spec.replicas (Int32.ofNat input.desired) false ∧
      input.fullStatus.readyReplicas = Int32.ofNat input.desired ∧
      input.fullStatus.replicas = Int32.ofNat input.desired ∧
      input.fullStatus.warmingReplicas = 0 ∧ input.fullStatus.activeReschedules = 0 := by
  have hcount : input.readyReplicas = input.desired := by
    rw [← hlength, readyReplicas, List.countP_eq_length]
    exact fun placement hmem => decide_eq_true (hready placement hmem)
  have hwarming : input.warmingReplicas = 0 := by
    rw [warmingReplicas, List.countP_eq_zero]
    intro placement hmem
    simp [hready placement hmem]
  have hactive : input.activeReschedules = 0 := by
    rw [activeReschedules, List.countP_eq_zero]
    intro placement hmem
    simp [isMoveInFlight, hready placement hmem]
  have hdrained : input.drainAndHold = false := by
    rw [drainAndHold, List.any_eq_false]
    intro placement hmem
    simp [hready placement hmem]
  simp only [fullStatus, hcount, hwarming, hactive, hdrained, hlength]
  exact ⟨trivial, trivial, trivial, rfl, rfl⟩

variable (hsettled : round.Settled metadata replicas displaced)
  (howned : world.Owned metadata.name)
  (hsurplus : world.WithoutSurplus metadata.name replicas.toInt.toNat)

include hsettled howned hsurplus

theorem Round.Settled.placements_eq : (world.input metadata round).placements =
    (world.input metadata round).slotNodes.map (world.input metadata round).appliedPlacement := by
  have hheld : (world.input metadata round).heldSlots = [] := by
    rw [List.eq_nil_iff_forall_not_mem]
    rintro ⟨index, node⟩ hmem
    obtain ⟨hcurrent, hrange, -⟩ := (ReconcileInput.mem_heldSlots index node).mp hmem
    rw [hsettled.desired_eq, Nat.not_lt] at hrange
    rw [howned.current_lookup, hsurplus index hrange] at hcurrent
    cases hcurrent
  rw [ReconcileInput.placements_eq, hheld, List.map_nil, List.append_nil]

/-- With the moves written off, the surplus gone and every child Ready, the
fleet is up. -/
theorem Round.Settled.isUp
    (hplaced : world.Placed metadata.name replicas.toInt.toNat displaced)
    (hwritten : world.MovesWrittenOff metadata.name replicas.toInt.toNat)
    (hready : ∀ index < replicas.toInt.toNat, round.ready metadata.name index = true) :
    (world.reconcile metadata round).IsUp metadata.name replicas displaced := by
  have hdesired := hsettled.desired_eq world
  have hbound := @ReconcileInput.desired_lt (world.input metadata round)
  have hplacements := hsettled.placements_eq howned hsurplus
  have hindices := ReconcileInput.slotNodes_indices
    (World.input_isSupported world hsettled.full)
    (World.healthyCandidates_ne_nil world metadata hsettled.survivor)
  have hlisted : (world.input metadata round).placements.map PlacementStatus.vllmServiceRef =
      (List.range replicas.toInt.toNat).map (childName metadata.name) := by
    rw [← hdesired, ← hindices, hplacements, List.map_map, List.map_map]
    rfl
  have hserved : ∀ placement ∈ (world.input metadata round).placements,
      placement.phase = "Ready" ∧ ¬ displaced placement.nodeRef := by
    intro placement hmem
    rw [hplacements, List.mem_map] at hmem
    obtain ⟨⟨index, node⟩, hslot, heq⟩ := hmem
    obtain ⟨hrange, hpin⟩ := (ReconcileInput.mem_slotNodes index node).mp hslot
    obtain ⟨found, hfound, hsafe, hphase⟩ :=
      hplaced.placementOf_eq hsettled howned (hdesired ▸ hrange)
    rw [ReconcileInput.placementOf, if_pos hrange, hpin, Option.map_some, Option.some.injEq,
      heq] at hfound
    rw [← hfound] at hphase hsafe
    refine ⟨?_, hsafe⟩
    rw [hphase, ReconcileInput.advancedPhase_ready_iff]
    exact ⟨rfl, hplaced.comesReady howned hwritten (hdesired ▸ hrange)
      (hready index (hdesired ▸ hrange))⟩
  have hlength : (world.input metadata round).placements.length =
      (world.input metadata round).desired := by
    rw [hplacements, List.length_map, ← List.length_map Prod.fst, hindices, List.length_range]
  obtain ⟨hphase, hcount, hreplicas, hwarming, hactive⟩ :=
    ReconcileInput.fullStatus_of_ready hlength fun placement hmem => (hserved placement hmem).1
  have hwrittenCount : (Int32.ofNat (world.input metadata round).desired).toInt =
      replicas.toInt.toNat := by
    rw [ReconcileInput.int32_ofNat_toInt hbound, hdesired]
  constructor
  · intro name
    constructor
    · rintro ⟨child, hchild⟩
      obtain ⟨index, -, rfl, -, node, hnode⟩ := howned.reconcile name child hchild
      refine ⟨index, ?_, rfl⟩
      by_contra hrange
      have hpin := howned.reconcile_pin hsettled.full index
      rw [hdesired, if_neg hrange, hsurplus index (Nat.not_lt.mp hrange), ite_self, World.pin,
        hchild] at hpin
      rw [Option.bind_some, hnode] at hpin
      cases hpin
    · rintro ⟨index, hindex, rfl⟩
      obtain ⟨node, hpin⟩ := hsettled.pinned howned hindex
      obtain ⟨child, hchild, -⟩ := Option.bind_eq_some_iff.mp hpin
      exact ⟨child, hchild⟩
  · refine ⟨_, World.reconcile_status hsettled.full, ?_, ?_, hsettled.replicas, ?_, hwarming,
      hactive⟩
    · rw [hphase, fleetPhaseFor_ready_iff, hwrittenCount]
      refine ⟨rfl, ?_⟩
      rw [show (world.input metadata round).fleet.spec.replicas = replicas from hsettled.replicas]
      omega
    · rw [hcount, hwrittenCount]
    · rw [hreplicas, hwrittenCount]
  · rw [World.reconcile_placements hsettled.full]
    exact hlisted
  · intro placement hmem
    obtain ⟨-, index, href, hpin⟩ := howned.statusAgrees_reconcile hsettled.full placement hmem
    rw [World.reconcile_placements hsettled.full] at hmem
    obtain ⟨hphase, hsafe⟩ := hserved placement hmem
    obtain ⟨child, hchild, hnode⟩ := Option.bind_eq_some_iff.mp hpin
    rw [← href] at hchild
    exact ⟨hphase, hsafe, child, hchild, hnode⟩

end Up

/-! ## The slots on displaced nodes run out -/

namespace World

variable {metadata : ObjectMeta} {replicas : Int32} {displaced : String → Prop}
  {world : World} {round next later reference : Round}

theorem leftToDrain_settled (hround : round.Settled metadata replicas displaced)
    (hnext : next.Settled metadata replicas displaced) :
    leftToDrain metadata world round = leftToDrain metadata world next := by
  ext index
  rw [mem_leftToDrain, mem_leftToDrain, pinDisplaced_iff, pinDisplaced_iff,
    hround.desired_eq, hnext.desired_eq]
  simp only [hround.displaced, hnext.displaced]

theorem Owned.card_leftToDrain (howned : world.Owned metadata.name)
    (hround : round.Settled metadata replicas displaced)
    (hnext : next.Settled metadata replicas displaced) :
    (leftToDrain metadata (world.reconcile metadata round) next).card +
        (startedMoves metadata world round).card =
      (leftToDrain metadata world next).card := by
  rw [howned.leftToDrain_next hround.full (hnext.replicas.trans hround.replicas.symm)
    fun node => (hnext.displaced node).trans (hround.displaced node).symm,
    ← leftToDrain_settled hround hnext]
  exact Finset.card_sdiff_add_card_eq_card startedMoves_subset

/-- A reconcile that starts no move, after two that started none, finds nothing
left to drain. -/
theorem Owned.leftToDrain_eq_zero (howned : world.Owned metadata.name)
    (hround : round.Settled metadata replicas displaced)
    (hnext : next.Settled metadata replicas displaced)
    (hlater : later.Settled metadata replicas displaced)
    (hfirst : (startedMoves metadata world round).card = 0)
    (hsecond : (startedMoves metadata (world.reconcile metadata round) next).card = 0)
    (hthird : (startedMoves metadata
      ((world.reconcile metadata round).reconcile metadata next) later).card = 0) :
    (leftToDrain metadata ((world.reconcile metadata round).reconcile metadata next)
      later).card = 0 := by
  have hsame : ∀ node, node ∈ next.snapshot.displaced ↔ node ∈ round.snapshot.displaced :=
    fun node => (hnext.displaced node).trans (hround.displaced node).symm
  have hflight := howned.inFlightMoves_le hround.full hnext.full hsame
    fun node => (hlater.displaced node).trans (hnext.displaced node).symm
  have howned' : ((world.reconcile metadata round).reconcile metadata next).Owned metadata.name :=
    howned.reconcile.reconcile
  have hmoves := howned'.min_le_card_started hlater.full hlater.survivor
  have hcap : 0 < (((world.reconcile metadata round).reconcile metadata next).input metadata
      later).cap := by
    have hallowed := hlater.allowed
    change 0 < later.spec.hysteresis.maxConcurrentReschedules.toInt.toNat
    omega
  omega

theorem placed_of_drained (hround : round.Settled metadata replicas displaced)
    (hpinned : ∀ index < replicas.toInt.toNat, ∃ node,
      world.pin metadata.name index = some node)
    (hdrained : (leftToDrain metadata world round).card = 0) :
    world.Placed metadata.name replicas.toInt.toNat displaced := by
  intro index hindex
  obtain ⟨node, hnode⟩ := hpinned index hindex
  refine ⟨node, hnode, fun hleft => ?_⟩
  have hmem : index ∈ leftToDrain metadata world round := by
    rw [mem_leftToDrain, hround.desired_eq, pinDisplaced_iff]
    exact ⟨hindex, node, hnode, (hround.displaced node).mpr hleft⟩
  rw [Finset.card_eq_zero.mp hdrained] at hmem
  simp at hmem

end World

/-! ## The surplus goes -/

namespace World

def writtenWait (world : World) (name : String) : Int32 :=
  ((BTreeMap.collect (world.placements.map fun placement =>
    (placement.vllmServiceRef, placement.surplusReconciles)))[name]?).getD 0

variable {metadata : ObjectMeta} {replicas : Int32} {displaced : String → Prop}
  {world : World} {round : Round} {index : Nat}

theorem surplusOutcome_eq (world : World) (metadata : ObjectMeta) (round : Round) (index : Nat) :
    (world.input metadata round).surplusOutcome index =
      surplusHysteresis (world.writtenWait (childName metadata.name index)) true
        round.spec.hysteresis.stableReconcilesRequired := rfl

theorem Owned.surplus_gone (howned : world.Owned metadata.name)
    (hsettled : round.Settled metadata replicas displaced)
    (hindex : replicas.toInt.toNat ≤ index) (hgone : world.pin metadata.name index = none) :
    (world.reconcile metadata round).pin metadata.name index = none := by
  rw [howned.reconcile_pin hsettled.full, hsettled.desired_eq, if_neg (Nat.not_lt.mpr hindex),
    hgone, ite_self]

/-- A reconcile deletes a surplus child or makes its wait longer. -/
theorem Owned.surplus_waits (howned : world.Owned metadata.name)
    (hsettled : round.Settled metadata replicas displaced)
    (hindex : replicas.toInt.toNat ≤ index) :
    (world.reconcile metadata round).pin metadata.name index = none ∨
      (world.writtenWait (childName metadata.name index)).toInt <
        ((world.reconcile metadata round).writtenWait (childName metadata.name index)).toInt := by
  have hrange : ¬ index < (world.input metadata round).desired := by
    rw [hsettled.desired_eq]
    exact Nat.not_lt.mpr hindex
  have hafter := howned.reconcile_pin hsettled.full index
  rw [if_neg hrange] at hafter
  cases houtcome : ((world.input metadata round).surplusOutcome index).2 with
  | true =>
      rw [houtcome, if_pos rfl] at hafter
      exact .inl hafter
  | false =>
      cases hpin : world.pin metadata.name index with
      | none => exact .inl (howned.surplus_gone hsettled hindex hpin)
      | some node =>
          right
          have hplacement : (world.input metadata round).placementOf index =
              some ((world.input metadata round).heldPlacement (index, node)) := by
            rw [ReconcileInput.placementOf, if_neg hrange, houtcome, howned.current_lookup, hpin]
            rfl
          have hread := ReconcileInput.prevSurplus_readBack (world.input metadata round)
            ((world.reconcile metadata round).input metadata round)
            (reconcile_placements hsettled.full) index
          rw [hplacement] at hread
          have hwait : (world.reconcile metadata round).writtenWait
              (childName metadata.name index) =
                ((world.input metadata round).surplusOutcome index).1 :=
            congrArg (fun found : Option Int32 => found.getD 0) hread
          rw [surplusOutcome_eq] at houtcome hwait
          obtain ⟨hnext, hless⟩ := surplusHysteresis_held houtcome
          have hrequired := round.spec.hysteresis.stableReconcilesRequired.toInt_lt
          rw [hwait]
          omega

end World

end VllmColdstartOperator
