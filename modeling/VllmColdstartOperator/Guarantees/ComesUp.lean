import VllmColdstartOperator.Foundation.Fairness
import VllmColdstartOperator.Guarantees.Rollout

/-!
# A fleet comes up

Once the notices stay as they are, a node without one has room, and the children's
Deployments roll out, the two controllers together bring the fleet up and keep it
there, whatever happened before: one child for each replica, with a ready pod on
its node, none of these nodes displaced, and a status that says Ready.
-/

namespace VllmColdstartOperator

open Foundation Std Filter

def Event.IsFleet : Event → Prop
  | .fleet _ _ => True
  | .service _ => False
  | .createPod _ _ => False
  | .setReady _ _ _ => False
  | .removePod _ _ => False

def Event.Settled (metadata : ObjectMeta) (replicas : Int32) (displaced : String → Prop) :
    Event → Prop
  | .fleet spec snapshot =>
      ∀ observed, Round.Settled metadata replicas displaced ⟨spec, snapshot, observed⟩
  | .service _ => True
  | .createPod _ _ => True
  | .setReady _ _ _ => True
  | .removePod _ _ => True

namespace Cluster

variable {cluster : Cluster} {metadata : ObjectMeta}

theorem next_world (environment : VllmServiceController.Environment) {event : Event}
    (hother : ¬ event.IsFleet) : (cluster.next metadata environment event).world =
      cluster.world := by
  cases event with
  | fleet spec snapshot => exact absurd trivial hother
  | service name => exact reconcileService_world environment name
  | createPod name node => exact changePods_world name _
  | setReady name position ready => exact changePods_world name _
  | removePod name position => exact changePods_world name _

theorem next_records (environment : VllmServiceController.Environment) {replicas : Int32}
    {displaced : String → Prop} {event : Event} {index : Nat}
    (howned : cluster.world.Owned metadata.name)
    (hsettled : event.Settled metadata replicas displaced)
    (hindex : index < replicas.toInt.toNat)
    (hplaced : cluster.world.Placed metadata.name replicas.toInt.toNat displaced)
    (hother : event ≠ .service (childName metadata.name index)) :
    ((cluster.next metadata environment event).stateOf (childName metadata.name index)).status =
        (cluster.stateOf (childName metadata.name index)).status ∧
      ((cluster.next metadata environment event).stateOf
          (childName metadata.name index)).deployment =
        (cluster.stateOf (childName metadata.name index)).deployment := by
  obtain ⟨node, hpin, hsafe⟩ := hplaced index hindex
  cases event with
  | fleet spec snapshot =>
      have hround := hsettled (cluster.round spec snapshot).observed
      have hafter := hround.pin_stays howned hindex hpin hsafe
      have hworld := @reconcileFleet_world cluster metadata spec snapshot
      have hkept := @reconcileFleet_kept cluster metadata spec snapshot howned hround.full index
        node node hpin (hworld.symm ▸ hafter)
      exact ⟨congrArg ServiceState.status hkept, congrArg ServiceState.deployment hkept⟩
  | service name =>
      have hne : name ≠ childName metadata.name index := fun heq => hother (heq ▸ rfl)
      have hkept : (cluster.reconcileService environment name).stateOf
          (childName metadata.name index) = cluster.stateOf (childName metadata.name index) := by
        cases hchild : cluster.world.children[name]? with
        | none => rw [reconcileService, hchild]
        | some child => rw [reconcileService_stateOf environment hchild, if_neg hne]
      exact ⟨congrArg ServiceState.status hkept, congrArg ServiceState.deployment hkept⟩
  | createPod name node =>
      obtain ⟨hstatus, -, hdeployment⟩ := @changePods_records cluster _ name
        (childName metadata.name index) (ServiceState.createPod_keepsRecords node)
      exact ⟨hstatus, hdeployment⟩
  | setReady name position ready =>
      obtain ⟨hstatus, -, hdeployment⟩ := @changePods_records cluster _ name
        (childName metadata.name index) (ServiceState.setReady_keepsRecords position ready)
      exact ⟨hstatus, hdeployment⟩
  | removePod name position =>
      obtain ⟨hstatus, -, hdeployment⟩ := @changePods_records cluster _ name
        (childName metadata.name index) (ServiceState.removePod_keepsRecords position)
      exact ⟨hstatus, hdeployment⟩

end Cluster

def eventsFrom (metadata : ObjectMeta) (environment : VllmServiceController.Environment)
    (events : Nat → Event) (start : Cluster) : Nat → Cluster :=
  run (fun event cluster => cluster.next metadata environment event) events start

theorem Cluster.Arises.eventsFrom {metadata : ObjectMeta} {start : Cluster}
    (harises : start.Arises metadata) (environment : VllmServiceController.Environment)
    (events : Nat → Event) (time : Nat) :
    (eventsFrom metadata environment events start time).Arises metadata := by
  induction time with
  | zero => exact harises
  | succ time ih => exact ih.next environment (events time)

/-- A Deployment that stays pinned to a node comes to keep a ready pod there. -/
def RollsOut (cluster : Nat → Cluster) (name : String) : Prop :=
  ∀ node, (∀ᶠ time in atTop, ∃ deployment,
      ((cluster time).stateOf name).deployment = some deployment ∧
        deployment.spec.template.hostname = some node) →
    ∀ᶠ time in atTop, ((cluster time).stateOf name).ReadyOn node

/-- Whatever came before, from some time on the fleet reconciles are settled; the
fleet and each child below the replica count are reconciled again and again, and
the Deployments of these children roll out. -/
structure ComesUp (metadata : ObjectMeta) (environment : VllmServiceController.Environment)
    (replicas : Int32) (displaced : String → Prop) (events : Nat → Event) (start : Cluster) :
    Prop where
  arises : start.Arises metadata
  settled : ∀ᶠ time in atTop, (events time).Settled metadata replicas displaced
  fleet : ∃ᶠ time in atTop, (events time).IsFleet
  serviced : ∀ index < replicas.toInt.toNat,
    ∃ᶠ time in atTop, events time = .service (childName metadata.name index)
  rollsOut : ∀ index < replicas.toInt.toNat,
    RollsOut (eventsFrom metadata environment events start) (childName metadata.name index)

/-- The fleet is up, and each child has a ready pod on the node it is placed on. -/
structure Cluster.IsUp (cluster : Cluster) (fleetName : String) (replicas : Int32)
    (displaced : String → Prop) : Prop where
  world : cluster.world.IsUp fleetName replicas displaced
  backed : ∀ placement ∈ cluster.world.placements,
    (cluster.stateOf placement.vllmServiceRef).ReadyOn placement.nodeRef

namespace ComesUp

variable {metadata : ObjectMeta} {environment : VllmServiceController.Environment}
  {replicas : Int32} {displaced : String → Prop} {events : Nat → Event} {start : Cluster}

theorem sound (hcomes : ComesUp metadata environment replicas displaced events start)
    (time : Nat) : Cluster.Sound metadata (eventsFrom metadata environment events start time) :=
  (hcomes.arises.eventsFrom environment events time).sound

theorem world_kept {time : Nat} (hother : ¬ (events time).IsFleet) :
    (eventsFrom metadata environment events start (time + 1)).world =
      (eventsFrom metadata environment events start time).world :=
  Cluster.next_world environment hother

theorem fleet_round {time : Nat} (hfleet : (events time).IsFleet)
    (hsettled : (events time).Settled metadata replicas displaced) :
    ∃ round : Round, round.Settled metadata replicas displaced ∧
      (eventsFrom metadata environment events start (time + 1)).world =
        (eventsFrom metadata environment events start time).world.reconcile metadata round ∧
      ∀ index, round.ready metadata.name index = true ↔
        ∃ status, ((eventsFrom metadata environment events start time).stateOf
          (childName metadata.name index)).status = some status ∧ status.phase = "Ready" := by
  cases hevent : events time with
  | fleet spec snapshot =>
      rw [hevent] at hsettled
      refine ⟨(eventsFrom metadata environment events start time).round spec snapshot,
        hsettled _, ?_, fun index => Cluster.round_ready_iff⟩
      rw [← Cluster.reconcileFleet_world]
      unfold eventsFrom
      rw [run_succ, hevent]
      rfl
  | service name => exact absurd hfleet (by rw [hevent]; exact not_false)
  | createPod name node => exact absurd hfleet (by rw [hevent]; exact not_false)
  | setReady name position ready => exact absurd hfleet (by rw [hevent]; exact not_false)
  | removePod name position => exact absurd hfleet (by rw [hevent]; exact not_false)

/-- What each settled fleet reconcile makes of the world holds in the end. -/
theorem eventually_world (hcomes : ComesUp metadata environment replicas displaced events start)
    (before holds : World → Prop)
    (hbefore : ∀ᶠ time in atTop, before (eventsFrom metadata environment events start time).world)
    (hmakes : ∀ (world : World) (round : Round), world.Owned metadata.name →
      round.Settled metadata replicas displaced → before world →
      holds (world.reconcile metadata round)) :
    ∀ᶠ time in atTop, holds (eventsFrom metadata environment events start time).world := by
  refine eventually_of_fair hcomes.fleet ?_ ?_
  · filter_upwards [hcomes.settled, hbefore] with time hsettled hworld hfleet
    obtain ⟨round, hround, hafter, -⟩ := fleet_round hfleet hsettled
    rw [hafter]
    exact hmakes _ round (hcomes.sound time).owned hround hworld
  · filter_upwards with time hother hholds
    rw [world_kept hother]
    exact hholds

theorem fleet_still (hcomes : ComesUp metadata environment replicas displaced events start)
    {reference : Round} (hreference : reference.Settled metadata replicas displaced)
    {time : Nat} (hfleet : (events time).IsFleet)
    (hsettled : (events time).Settled metadata replicas displaced)
    (hsame : (World.leftToDrain metadata
        (eventsFrom metadata environment events start (time + 1)).world reference).card =
      (World.leftToDrain metadata
        (eventsFrom metadata environment events start time).world reference).card) :
    ∃ round : Round, round.Settled metadata replicas displaced ∧
      (eventsFrom metadata environment events start (time + 1)).world =
        (eventsFrom metadata environment events start time).world.reconcile metadata round ∧
      (World.startedMoves metadata (eventsFrom metadata environment events start time).world
        round).card = 0 := by
  obtain ⟨round, hround, hafter, -⟩ := fleet_round hfleet hsettled
  have hleft := (hcomes.sound time).owned.card_leftToDrain hround hreference
  rw [← hafter, hsame] at hleft
  exact ⟨round, hround, hafter, by omega⟩

theorem leftToDrain_falls (hcomes : ComesUp metadata environment replicas displaced events start)
    {reference : Round}
    (hreference : reference.Settled metadata replicas displaced) {time : Nat}
    (hsettled : (events time).Settled metadata replicas displaced) :
    (World.leftToDrain metadata
        (eventsFrom metadata environment events start (time + 1)).world reference).card ≤
      (World.leftToDrain metadata
        (eventsFrom metadata environment events start time).world reference).card := by
  by_cases hfleet : (events time).IsFleet
  · obtain ⟨round, hround, hafter, -⟩ := fleet_round hfleet hsettled
    have hleft := (hcomes.sound time).owned.card_leftToDrain hround hreference
    rw [← hafter] at hleft
    omega
  · rw [world_kept hfleet]

/-- The slots left to drain are as few as they get, and then there are none. -/
theorem exists_drained (hcomes : ComesUp metadata environment replicas displaced events start)
    {calm : Nat} (hcalm : ∀ time ≥ calm, (events time).Settled metadata replicas displaced) :
    ∃ time ≥ calm, ∃ round : Round, round.Settled metadata replicas displaced ∧
      (World.leftToDrain metadata (eventsFrom metadata environment events start time).world
        round).card = 0 := by
  obtain ⟨early, hearly, hfleet⟩ := frequently_atTop.mp hcomes.fleet calm
  obtain ⟨reference, hreference, -⟩ :=
    @fleet_round metadata environment replicas displaced events start early hfleet
      (hcalm early hearly)
  obtain ⟨gap, hleast⟩ := @eventually_constant
    (fun later => (World.leftToDrain metadata
      (eventsFrom metadata environment events start (calm + later)).world reference).card)
    fun later => hcomes.leftToDrain_falls hreference (hcalm _ (Nat.le_add_right calm later))
  have hstill : ∀ time ≥ calm + gap, (events time).IsFleet →
      ∃ round : Round, round.Settled metadata replicas displaced ∧
        (eventsFrom metadata environment events start (time + 1)).world =
          (eventsFrom metadata environment events start time).world.reconcile metadata round ∧
        (World.startedMoves metadata (eventsFrom metadata environment events start time).world
          round).card = 0 := by
    intro time htime hevent
    have hsame := hleast (time - calm) (by omega)
    rw [← Nat.add_assoc, Nat.add_sub_cancel' (by omega)] at hsame
    exact hcomes.fleet_still hreference hevent (hcalm time (by omega)) hsame
  -- three fleet reconciles one after the other, none of which starts a move
  have hnext := @exists_next (fun time => (events time).IsFleet) World
    (fun time => (eventsFrom metadata environment events start time).world) hcomes.fleet
    fun time => world_kept
  obtain ⟨first, hfirst, hfirstFleet, -⟩ := hnext (calm + gap)
  obtain ⟨round, hround, hroundAfter, hroundStill⟩ := hstill first hfirst hfirstFleet
  obtain ⟨second, hsecond, hsecondFleet, hsecondWorld⟩ := hnext (first + 1)
  obtain ⟨next, hnextSettled, hnextAfter, hnextStill⟩ :=
    hstill second (by omega) hsecondFleet
  obtain ⟨third, hthird, hthirdFleet, hthirdWorld⟩ := hnext (second + 1)
  obtain ⟨later, hlater, -, hlaterStill⟩ := hstill third (by omega) hthirdFleet
  refine ⟨third, by omega, later, hlater, ?_⟩
  have howned := (hcomes.sound first).owned
  rw [hsecondWorld, hroundAfter] at hnextAfter hnextStill
  rw [hthirdWorld, hnextAfter] at hlaterStill ⊢
  exact howned.leftToDrain_eq_zero hround hnextSettled hlater hroundStill hnextStill hlaterStill

theorem eventually_placed (hcomes : ComesUp metadata environment replicas displaced events start) :
    ∀ᶠ time in atTop, (eventsFrom metadata environment events start time).world.Placed
      metadata.name replicas.toInt.toNat displaced := by
  have hpinned := hcomes.eventually_world (fun _ => True)
    (fun world => ∀ index < replicas.toInt.toNat, ∃ node,
      world.pin metadata.name index = some node)
    (Eventually.of_forall fun _ => trivial)
    fun world round howned hround _ index hindex => hround.pinned howned hindex
  obtain ⟨start, hstart⟩ := eventually_atTop.mp (hcomes.settled.and hpinned)
  obtain ⟨first, hfirst, round, hround, hdrained⟩ :=
    hcomes.exists_drained fun time htime => (hstart time htime).1
  refine eventually_atTop.mpr ⟨first, fun time htime => ?_⟩
  induction time, htime using Nat.le_induction with
  | base => exact World.placed_of_drained hround (hstart first hfirst).2 hdrained
  | succ time htime ih =>
      by_cases hfleet : (events time).IsFleet
      · obtain ⟨later, hlater, hafter, -⟩ :=
          fleet_round hfleet (hstart time (hfirst.trans htime)).1
        rw [hafter]
        exact ih.reconcile hlater (hcomes.sound time).owned
      · rw [world_kept hfleet]
        exact ih

theorem eventually_movesWrittenOff
    (hcomes : ComesUp metadata environment replicas displaced events start) :
    ∀ᶠ time in atTop, (eventsFrom metadata environment events start time).world.MovesWrittenOff
      metadata.name replicas.toInt.toNat :=
  hcomes.eventually_world (fun world => world.Placed metadata.name replicas.toInt.toNat displaced)
    (fun world => world.MovesWrittenOff metadata.name replicas.toInt.toNat)
    hcomes.eventually_placed
    fun _ _ howned hround hplaced => hplaced.movesWrittenOff hround howned

theorem eventually_withoutSurplus
    (hcomes : ComesUp metadata environment replicas displaced events start) :
    ∀ᶠ time in atTop, (eventsFrom metadata environment events start time).world.WithoutSurplus
      metadata.name replicas.toInt.toNat := by
  have hgone : ∀ index ∈ Finset.range (2 ^ 31), ∀ᶠ time in atTop,
      replicas.toInt.toNat ≤ index → (eventsFrom metadata environment events start time).world.pin
        metadata.name index = none := by
    intro index _
    by_cases hindex : replicas.toInt.toNat ≤ index
    · simp only [hindex, true_imp_iff]
      -- the wait grows with every fleet reconcile, and an `i32` bounds it
      let wait := fun time => ((eventsFrom metadata environment events start time).world.writtenWait
        (childName metadata.name index)).toInt
      refine @eventually_of_rank (fun time => (events time).IsFleet) _
        (fun time => (2 ^ 31 - wait time).toNat) hcomes.fleet ?_ ?_ ?_
      · filter_upwards [hcomes.settled] with time hsettled hfleet
        obtain ⟨round, hround, hafter, -⟩ := fleet_round hfleet hsettled
        have howned := (hcomes.sound time).owned
        rw [hafter]
        rcases howned.surplus_waits hround hindex with hnone | hlonger
        · exact .inr hnone
        · left
          have hbound := Int32.toInt_lt (((eventsFrom metadata environment events start
            time).world.reconcile metadata round).writtenWait (childName metadata.name index))
          simp only [wait, hafter]
          omega
      · filter_upwards with time hother
        simp only [wait, world_kept hother]
        exact le_rfl
      · filter_upwards [hcomes.settled] with time hsettled hnone
        by_cases hfleet : (events time).IsFleet
        · obtain ⟨round, hround, hafter, -⟩ := fleet_round hfleet hsettled
          rw [hafter]
          exact (hcomes.sound time).owned.surplus_gone hround hindex hnone
        · rw [world_kept hfleet]
          exact hnone
    · exact Eventually.of_forall fun _ habove => absurd habove hindex
  filter_upwards [(eventually_all_finset _).mpr hgone] with time hnone index hindex
  by_cases hsmall : index < 2 ^ 31
  · exact hnone index (Finset.mem_range.mpr hsmall) hindex
  · by_contra hpin
    obtain ⟨node, hnode⟩ := Option.ne_none_iff_exists'.mp hpin
    have hslot := (hcomes.sound time).slots index node hnode
    omega

theorem eventually_pinned (hcomes : ComesUp metadata environment replicas displaced events start)
    {index : Nat} (hindex : index < replicas.toInt.toNat) :
    ∃ node, ¬ displaced node ∧ ∀ᶠ time in atTop,
      (eventsFrom metadata environment events start time).world.pin metadata.name index =
        some node := by
  obtain ⟨first, hfirst⟩ := eventually_atTop.mp (hcomes.settled.and hcomes.eventually_placed)
  obtain ⟨node, hpin, hsafe⟩ := (hfirst first le_rfl).2 index hindex
  refine ⟨node, hsafe, eventually_atTop.mpr ⟨first, fun time htime => ?_⟩⟩
  induction time, htime using Nat.le_induction with
  | base => exact hpin
  | succ time htime ih =>
      by_cases hfleet : (events time).IsFleet
      · obtain ⟨round, hround, hafter, -⟩ := fleet_round hfleet (hfirst time htime).1
        rw [hafter]
        exact hround.pin_stays (hcomes.sound time).owned hindex ih hsafe
      · rw [world_kept hfleet]
        exact ih

theorem eventually_recorded
    (hcomes : ComesUp metadata environment replicas displaced events start) {index : Nat}
    (hindex : index < replicas.toInt.toNat)
    (recorded : Option VllmServiceStatus → Option Deployment → Prop)
    (hwrites : ∀ᶠ time in atTop, events time = .service (childName metadata.name index) →
      ∀ child ns, child.spec.replicas = 1 → child.metadata.ns = some ns →
      (eventsFrom metadata environment events start time).world.children[
        childName metadata.name index]? = some child →
      recorded
        (((eventsFrom metadata environment events start time).stateOf
          (childName metadata.name index)).reconcile environment child).status
        (((eventsFrom metadata environment events start time).stateOf
          (childName metadata.name index)).reconcile environment child).deployment) :
    ∀ᶠ time in atTop, recorded
      ((eventsFrom metadata environment events start time).stateOf
        (childName metadata.name index)).status
      ((eventsFrom metadata environment events start time).stateOf
        (childName metadata.name index)).deployment := by
  refine eventually_of_fair (hcomes.serviced index hindex) ?_ ?_
  · filter_upwards [hcomes.eventually_placed, hwrites] with time hplaced hwritten hevent
    obtain ⟨node, hpin, -⟩ := hplaced index hindex
    obtain ⟨child, hchild, -⟩ := Option.bind_eq_some_iff.mp hpin
    obtain ⟨hone, ns, hns⟩ := (hcomes.sound time).single _ child hchild
    have hafter : eventsFrom metadata environment events start (time + 1) =
        (eventsFrom metadata environment events start time).next metadata environment
          (.service (childName metadata.name index)) := hevent ▸ rfl
    rw [hafter, Cluster.next, Cluster.reconcileService_stateOf environment hchild, if_pos rfl]
    exact hwritten hevent child ns hone hns hchild
  · filter_upwards [hcomes.eventually_placed, hcomes.settled]
      with time hplaced hsettled hother hrecorded
    obtain ⟨hstatus, hdeployment⟩ := Cluster.next_records environment (hcomes.sound time).owned
      hsettled hindex hplaced hother
    have hstep : eventsFrom metadata environment events start (time + 1) =
      (eventsFrom metadata environment events start time).next metadata environment
        (events time) := rfl
    rw [hstep, hstatus, hdeployment]
    exact hrecorded

/-- The Deployment of a child that keeps its node comes to be pinned there, and so
there comes to be a ready pod. -/
theorem eventually_backed (hcomes : ComesUp metadata environment replicas displaced events start)
    {index : Nat} (hindex : index < replicas.toInt.toNat) :
    ∀ᶠ time in atTop, ∃ node,
      (eventsFrom metadata environment events start time).world.pin metadata.name index =
        some node ∧
      ((eventsFrom metadata environment events start time).stateOf
        (childName metadata.name index)).ReadyOn node := by
  obtain ⟨node, -, hpinned⟩ := hcomes.eventually_pinned hindex
  have hdeployed := hcomes.eventually_recorded hindex
    (fun _ deployment => ∃ found, deployment = some found ∧
      found.spec.template.hostname = some node) (by
    filter_upwards [hpinned] with time hpin _ child ns _ hns hchild
    obtain ⟨deployment, htemplate, hwritten⟩ := ServiceState.reconcile_eq _ environment hns
    refine ⟨deployment, congrArg ServiceState.deployment hwritten, ?_⟩
    rw [World.pin, hchild, Option.bind_some] at hpin
    rw [htemplate, ServiceState.hostname_podTemplate, hpin])
  filter_upwards [hpinned, hcomes.rollsOut index hindex node hdeployed] with time hpin hready
  exact ⟨node, hpin, hready⟩

theorem eventually_observed
    (hcomes : ComesUp metadata environment replicas displaced events start) :
    ∀ᶠ time in atTop, ∀ index ∈ Finset.range replicas.toInt.toNat,
      ∃ status, ((eventsFrom metadata environment events start time).stateOf
        (childName metadata.name index)).status = some status ∧ status.phase = "Ready" := by
  rw [eventually_all_finset]
  intro index hmem
  have hindex := Finset.mem_range.mp hmem
  refine hcomes.eventually_recorded hindex
    (fun status _ => ∃ found, status = some found ∧ found.phase = "Ready") ?_
  filter_upwards [hcomes.eventually_backed hindex] with time hbacked _ child ns hone hns _
  obtain ⟨-, -, pod, hpod, hready, -⟩ := hbacked
  exact ((hcomes.sound time).bounded _).writes_ready environment hns hone ⟨pod, hpod, hready⟩

theorem eventually_world_isUp
    (hcomes : ComesUp metadata environment replicas displaced events start) :
    ∀ᶠ time in atTop, (eventsFrom metadata environment events start time).world.IsUp metadata.name
      replicas displaced := by
  refine eventually_of_fair hcomes.fleet ?_ ?_
  · filter_upwards [hcomes.settled, hcomes.eventually_placed, hcomes.eventually_movesWrittenOff,
      hcomes.eventually_withoutSurplus, hcomes.eventually_observed]
      with time hsettled hplaced hwritten hsurplus hobserved hfleet
    obtain ⟨round, hround, hafter, hready⟩ := fleet_round hfleet hsettled
    rw [hafter]
    refine hround.isUp (hcomes.sound time).owned hsurplus hplaced hwritten fun index hindex => ?_
    exact (hready index).mpr (hobserved index (Finset.mem_range.mpr hindex))
  · filter_upwards with time hother hup
    rw [world_kept hother]
    exact hup

end ComesUp

/-- A fleet whose notices stay as they are, with room on a node without one and
Deployments that roll out, comes up and stays up, whatever came before: exactly
the replicas asked for, each with a ready pod off the displaced nodes, and each
shown Ready there. -/
theorem fleet_comes_up (metadata : ObjectMeta)
    (environment : VllmServiceController.Environment) (replicas : Int32)
    (displaced : String → Prop) (events : Nat → Event) (start : Cluster)
    (hcomes : ComesUp metadata environment replicas displaced events start) :
    ∀ᶠ time in atTop, (eventsFrom metadata environment events start time).IsUp metadata.name
      replicas displaced := by
  have hbacked := (eventually_all_finset (Finset.range replicas.toInt.toNat)).mpr
    fun index hmem => hcomes.eventually_backed (Finset.mem_range.mp hmem)
  filter_upwards [hcomes.eventually_world_isUp, hbacked] with time hup hready
  refine ⟨hup, fun placement hmem => ?_⟩
  obtain ⟨-, -, child, hchild, hnode⟩ := hup.served placement hmem
  obtain ⟨index, hindex, hname⟩ := (hup.children _).mp ⟨child, hchild⟩
  obtain ⟨node, hpin, hon⟩ := hready index (Finset.mem_range.mpr hindex)
  rw [hname] at hchild ⊢
  rw [World.pin, hchild, Option.bind_some, hnode, Option.some.injEq] at hpin
  exact hpin ▸ hon

namespace Sample

/-- The replica was up on `b`, its child was lost, and the reconcile that made the
child again was cut before it wrote the status. -/
def madeAgain : Cluster :=
  (((clusterAfter comesUp 6).lose fun name => name = "fleet-0").attemptFleet metadata
    (spec 1 1 1) (snapshot ["a", "b"] []) 1)

theorem madeAgain_arises : madeAgain.Arises metadata := by
  have hcomesUp : (clusterAfter comesUp 6).Arises metadata :=
    Cluster.Arises.empty.eventsFrom environment _ 6
  exact .cutFleet _ _ _ (.lost _ hcomesUp)

/-- The replica comes up on `b`, a notice on `b` comes to stay and the pod moves over. -/
def noticeStays (time : Nat) : Event :=
  movesOver.getD time (if time % 2 = 0 then fleetEvent ["b"] else .service "fleet-0")

theorem noticeStays_late {time : Nat} (hlate : 14 ≤ time) :
    noticeStays time = if time % 2 = 0 then fleetEvent ["b"] else .service "fleet-0" :=
  List.getD_eq_default _ _ hlate

def noticedOnB : Round := round (spec 1 1 1) (snapshot ["a", "b"] ["b"]) []

theorem noticedOnB_settled : noticedOnB.Settled metadata 1 fun node => node = "b" where
  full := round_isFull rfl (by decide)
  replicas := rfl
  allowed := by decide
  displaced := by
    intro node
    change node ∈ (snapshot ["a", "b"] ["b"]).displaced ↔ node = "b"
    rw [← Snapshot.isDisplaced_iff, snapshot_isDisplaced, List.mem_singleton]
    exact and_iff_right_of_imp fun heq => heq ▸ List.mem_cons_of_mem "a" List.mem_cons_self
  survivor := ⟨"a", by decide, by decide, by decide⟩

theorem fleetEvent_settled :
    (fleetEvent ["b"]).Settled metadata 1 fun node => node = "b" := by
  obtain ⟨hfull, hreplicas, hallowed, hdisplaced, hsurvivor⟩ := noticedOnB_settled
  exact fun _ => ⟨hfull, hreplicas, hallowed, hdisplaced, hsurvivor⟩

structure OnA (cluster : Cluster) : Prop where
  pinned : cluster.world.pin metadata.name 0 = some "a"
  deployed : ∃ deployment, (cluster.stateOf "fleet-0").deployment = some deployment ∧
    deployment.spec.template.hostname = some "a"
  backed : (cluster.stateOf "fleet-0").ReadyOn "a"

namespace OnA

variable {cluster : Cluster} (hon : OnA cluster) (hsound : cluster.Sound metadata)

include hon hsound

theorem fleet : OnA (cluster.next metadata environment (fleetEvent ["b"])) := by
  have hsettled : (cluster.round (spec 1 1 1) (snapshot ["a", "b"] ["b"])).Settled metadata 1
      fun node => node = "b" := fleetEvent_settled _
  have hafter := hsettled.pin_stays hsound.owned (show 0 < 1 from Nat.one_pos) hon.pinned
    (by decide)
  have hworld := @Cluster.reconcileFleet_world cluster metadata (spec 1 1 1)
    (snapshot ["a", "b"] ["b"])
  rw [← hworld] at hafter
  have hkept := Cluster.reconcileFleet_kept hsound.owned hsettled.full hon.pinned hafter
  rw [show childName metadata.name 0 = "fleet-0" by decide] at hkept
  have hnext : cluster.next metadata environment (fleetEvent ["b"]) =
    cluster.reconcileFleet metadata (spec 1 1 1) (snapshot ["a", "b"] ["b"]) := rfl
  rw [hnext]
  constructor
  · exact hafter
  · rw [hkept]
    exact hon.deployed
  · rw [hkept]
    exact hon.backed

theorem service : OnA (cluster.next metadata environment (.service "fleet-0")) := by
  obtain ⟨child, hchild, hnode⟩ := Option.bind_eq_some_iff.mp hon.pinned
  rw [show childName metadata.name 0 = "fleet-0" by decide] at hchild
  obtain ⟨-, ns, hns⟩ := hsound.single _ child hchild
  obtain ⟨deployment, htemplate, hwritten⟩ :=
    ServiceState.reconcile_eq (cluster.stateOf "fleet-0") environment hns
  have hafter : (cluster.next metadata environment (.service "fleet-0")).stateOf "fleet-0" =
      (cluster.stateOf "fleet-0").reconcile environment child :=
    (Cluster.reconcileService_stateOf environment hchild "fleet-0").trans (if_pos rfl)
  refine ⟨?_, ⟨deployment, ?_, ?_⟩, ?_⟩
  · rw [Cluster.next, Cluster.reconcileService_world]
    exact hon.pinned
  · rw [hafter, hwritten]
  · rw [htemplate, ServiceState.hostname_podTemplate, hnode]
  · rw [hafter, hwritten]
    exact hon.backed

end OnA

theorem noticeStays_onA (later : Nat) :
    OnA (eventsFrom metadata environment noticeStays madeAgain (14 + later)) := by
  induction later with
  | zero => exact ⟨by decide +kernel, by decide +kernel, by decide +kernel⟩
  | succ later ih =>
      have hsound := (madeAgain_arises.eventsFrom environment noticeStays (14 + later)).sound
      have hstep : eventsFrom metadata environment noticeStays madeAgain (14 + later + 1) =
          (eventsFrom metadata environment noticeStays madeAgain (14 + later)).next metadata
            environment (noticeStays (14 + later)) := rfl
      rw [← Nat.add_assoc, hstep, noticeStays_late (Nat.le_add_right 14 later)]
      split
      · exact ih.fleet hsound
      · exact ih.service hsound

theorem noticeStays_comesUp :
    ComesUp metadata environment 1 (fun node => node = "b") noticeStays madeAgain where
  arises := madeAgain_arises
  settled := by
    refine eventually_atTop.mpr ⟨14, fun time hlate => ?_⟩
    rw [noticeStays_late hlate]
    split
    · exact fleetEvent_settled
    · trivial
  fleet := by
    refine frequently_atTop.mpr fun start => ⟨2 * start + 14, by omega, ?_⟩
    rw [noticeStays_late (by omega), if_pos (by omega)]
    trivial
  serviced := by
    intro index hindex
    obtain rfl : index = 0 := Nat.lt_one_iff.mp hindex
    refine frequently_atTop.mpr fun start => ⟨2 * start + 15, by omega, ?_⟩
    rw [noticeStays_late (by omega), if_neg (by omega)]
    exact congrArg Event.service (by decide)
  rollsOut := by
    intro index hindex node hpinned
    obtain rfl : index = 0 := Nat.lt_one_iff.mp hindex
    obtain ⟨late, hlate⟩ := eventually_atTop.mp hpinned
    obtain ⟨deployment, hdeployment, hnode⟩ := hlate (14 + late) (Nat.le_add_left late 14)
    obtain ⟨found, hfound, hon⟩ := (noticeStays_onA late).deployed
    rw [show childName metadata.name 0 = "fleet-0" by decide, hfound,
      Option.some.injEq] at hdeployment
    rw [← hdeployment, hon, Option.some.injEq] at hnode
    refine eventually_atTop.mpr ⟨14, fun time htime => ?_⟩
    obtain ⟨later, rfl⟩ := Nat.exists_eq_add_of_le htime
    exact hnode ▸ (noticeStays_onA later).backed

/-- The replica is Ready on `b` when the notice comes, and in the end the fleet is
up without that node. -/
theorem fleet_comes_up_sample :
    (eventsFrom metadata environment noticeStays madeAgain 6).world.placements.map
      (fun placement => (placement.nodeRef, placement.phase)) = [("b", "Ready")] ∧
    ∀ᶠ time in atTop, (eventsFrom metadata environment noticeStays madeAgain time).IsUp
      metadata.name 1 fun node => node = "b" :=
  ⟨by decide +kernel,
    fleet_comes_up metadata environment 1 _ noticeStays madeAgain noticeStays_comesUp⟩

end Sample

end VllmColdstartOperator
