import VllmColdstartOperator.Guarantees.Counter
import VllmColdstartOperator.VllmServiceController.Cluster

/-!
# Ready on a node

The fleet reports a placement Ready on the word of its child's status, which
names neither the node nor the template the counted pods are of.  So the report
is backed by a ready pod on that node as long as a placement turns Ready after a
move only once its child was reconciled again, with the old pods gone, and no
child that counts as Ready loses its ready pod.
-/

namespace VllmColdstartOperator

open Foundation Std

namespace World

variable {metadata : ObjectMeta} {round : Round}

def writtenPhase (world : World) (name : String) : Option String :=
  (BTreeMap.collect (world.placements.map fun placement =>
    (placement.vllmServiceRef, placement.phase)))[name]?

theorem prevPhase_lookup (world : World) (metadata : ObjectMeta) (round : Round)
    (name : String) :
    (world.input metadata round).prevPhase[name]? = world.writtenPhase name := rfl

theorem writtenPhase_reconcile {world : World} (hfull : round.IsFull metadata) (index : Nat) :
    (world.reconcile metadata round).writtenPhase (childName metadata.name index) =
      ((world.input metadata round).placementOf index).map PlacementStatus.phase := by
  have hread := ReconcileInput.prevPhase_readBack (world.input metadata round)
    ((world.reconcile metadata round).input metadata round) (reconcile_placements hfull) index
  exact hread

end World

namespace ServiceState

def ReadyOn (state : ServiceState) (node : String) : Prop :=
  ∃ pod ∈ state.pods, pod.ready = true ∧ pod.node = node

variable {state : ServiceState} {node : String}

theorem ReadyOn.createPod (hready : state.ReadyOn node) (target : String) :
    (state.createPod target).ReadyOn node := by
  obtain ⟨pod, hmem, hpod⟩ := hready
  unfold ServiceState.createPod
  cases state.deployment with
  | none => exact ⟨pod, hmem, hpod⟩
  | some deployment =>
      dsimp only
      split
      · exact ⟨pod, List.mem_append_left _ hmem, hpod⟩
      · exact ⟨pod, hmem, hpod⟩

/-- A pod the rollout removes leaves a ready pod on the node of the template in force. -/
theorem ReadyOn.removePod (hready : state.ReadyOn node) (position : Nat) {deployment : Deployment}
    (hdeployment : state.deployment = some deployment)
    (hpin : deployment.spec.template.hostname = some node) :
    (state.removePod position).ReadyOn node := by
  have hkept : ∀ kept ∈ state.pods, kept.ready = true → kept.node = node →
      state.pods[position]? ≠ some kept →
      ∃ pod ∈ state.pods.eraseIdx position, pod.ready = true ∧ pod.node = node := by
    intro kept hmem hkeptReady hkeptNode hother
    refine ⟨kept, List.mem_eraseIdx_iff_getElem?.mpr ?_, hkeptReady, hkeptNode⟩
    obtain ⟨index, hindex⟩ := List.mem_iff_getElem?.mp hmem
    exact ⟨index, fun heq => hother (heq ▸ hindex), hindex⟩
  obtain ⟨held, hmem, hheld⟩ := hready
  unfold ServiceState.removePod
  rw [hdeployment]
  cases hpod : state.pods[position]? with
  | none => exact ⟨held, hmem, hheld⟩
  | some pod =>
      dsimp only
      split
      · next hremoved =>
          rcases hremoved with hunready | ⟨hstale, other, hother, htemplate, hotherReady⟩
          · refine hkept held hmem hheld.1 hheld.2 ?_
            rw [hpod]
            rintro ⟨rfl⟩
            exact absurd hheld.1 (by simp [hunready])
          · refine hkept other hother hotherReady
              (Pod.node_of_hostname ((congrArg PodTemplateSpec.hostname htemplate).trans hpin)) ?_
            rw [hpod]
            rintro ⟨rfl⟩
            exact hstale htemplate
      · exact ⟨held, hmem, hheld⟩

end ServiceState

namespace Cluster

variable {cluster : Cluster} {metadata : ObjectMeta}

/-- Every placement reported Ready is one whose child was last seen with a ready
pod on its node. -/
def ReadyShown (cluster : Cluster) : Prop :=
  ∀ placement ∈ cluster.world.placements, placement.phase = "Ready" →
    ∃ pod ∈ cluster.lastSeen placement.vllmServiceRef,
      pod.ready = true ∧ pod.node = placement.nodeRef

/-- A slot the next reconcile takes to Ready: its node is not displaced, its
child's status is Ready and its phase is one that follows. -/
def TurnsReady (cluster : Cluster) (metadata : ObjectMeta) (round : Round) (index : Nat)
    (node : String) : Prop :=
  cluster.world.pin metadata.name index = some node ∧
    ¬ (index < (cluster.world.input metadata round).desired ∧
      node ∈ round.snapshot.displaced) ∧
    round.ready metadata.name index = true ∧
    (cluster.world.writtenPhase (childName metadata.name index)).getD "Pending" ∈
      ["Pending", "Warming", "Rescheduling"]

/-- The child or its placement is reported Ready. -/
def CountedOn (cluster : Cluster) (name : String) : Prop :=
  (∃ status, (cluster.stateOf name).status = some status ∧ status.phase = "Ready") ∨
    ∃ placement ∈ cluster.world.placements,
      placement.vllmServiceRef = name ∧ placement.phase = "Ready"

/-- The event takes neither way round the pods.  A slot that turns Ready after a
move has a child reconciled since the move, and no ready pod of a template for
another node was left when it was last reconciled; a child reported Ready does
not lose the last ready pod on the node its Deployment is pinned to. -/
def Heeds (metadata : ObjectMeta) (cluster : Cluster) : Event → Prop
  | .fleet spec snapshot => (cluster.round spec snapshot).IsFull metadata →
      ∀ index node, cluster.TurnsReady metadata (cluster.round spec snapshot) index node →
        (cluster.world.writtenPhase (childName metadata.name index) = some "Rescheduling" →
          cluster.lastPin (childName metadata.name index) = some node) ∧
        ∀ pod ∈ cluster.lastSeen (childName metadata.name index), pod.ready = true →
          pod.template.hostname = cluster.lastPin (childName metadata.name index)
  | .setReady name position ready => cluster.CountedOn name →
      ∀ node, cluster.lastPin name = some node → (cluster.stateOf name).ReadyOn node →
        ((cluster.stateOf name).setReady position ready).ReadyOn node
  | .service _ => True
  | .createPod _ _ => True
  | .removePod _ _ => True

/-- A child whose status is Ready has been reconciled since its last move, unless
its placement is still on the way, and keeps the ready pod it was seen with on the
node it is pinned to. -/
structure ReadyInv (metadata : ObjectMeta) (cluster : Cluster) : Prop where
  owned : cluster.world.Owned metadata.name
  agrees : cluster.world.StatusAgrees metadata.name
  attached : ∀ name : String, cluster.world.children[name]? = none → cluster.services[name]? = none
  counted : ∀ (name : String) (status : VllmServiceStatus),
    (cluster.stateOf name).status = some status →
    status.phase = "Ready" → ∃ pod ∈ cluster.lastSeen name, pod.ready = true
  moving : ∀ index node status, cluster.world.pin metadata.name index = some node →
    (cluster.stateOf (childName metadata.name index)).status = some status →
    status.phase = "Ready" →
    cluster.lastPin (childName metadata.name index) = some node ∨
      cluster.world.writtenPhase (childName metadata.name index) = some "Draining" ∨
      cluster.world.writtenPhase (childName metadata.name index) = some "Rescheduling"
  templated : ∀ (name : String) (sighting : Sighting),
    (cluster.stateOf name).seen = some sighting → ∃ deployment,
      (cluster.stateOf name).deployment = some deployment ∧
        deployment.spec.template = sighting.template
  standing : ∀ name node, cluster.CountedOn name → cluster.lastPin name = some node →
    (∃ pod ∈ cluster.lastSeen name, pod.ready = true ∧ pod.node = node) →
    (cluster.stateOf name).ReadyOn node
  pinned : ∀ placement ∈ cluster.world.placements, placement.phase = "Ready" →
    cluster.lastPin placement.vllmServiceRef = some placement.nodeRef
  shown : cluster.ReadyShown

theorem empty_readyInv (metadata : ObjectMeta) : ReadyInv metadata empty where
  owned := by
    intro name child hchild
    simp [empty] at hchild
  agrees := by
    intro placement hmem
    cases hmem
  attached := by
    intro name _
    simp [empty]
  counted := by
    intro name status hstatus
    simp [empty, stateOf] at hstatus
  moving := by
    intro index node status hpin
    simp [empty, World.pin] at hpin
  templated := by
    intro name sighting hseen
    simp [empty, stateOf] at hseen
  standing := by
    intro name node _ hpin
    simp [empty, lastPin, stateOf] at hpin
  pinned := by
    intro placement hmem
    cases hmem
  shown := by
    intro placement hmem
    cases hmem

theorem round_ready_iff {spec : FleetServiceSpec} {snapshot : Snapshot} {index : Nat} :
    (cluster.round spec snapshot).ready metadata.name index = true ↔
      ∃ status, (cluster.stateOf (childName metadata.name index)).status = some status ∧
        status.phase = "Ready" := by
  unfold Round.ready round
  dsimp only
  cases (cluster.stateOf (childName metadata.name index)).status with
  | none => simp
  | some status => simp

namespace ReadyInv

theorem congr (hinv : ReadyInv metadata cluster) {after : Cluster}
    (hchildren : after.world.children = cluster.world.children)
    (hplacements : after.world.placements = cluster.world.placements)
    (hrecords : ∀ name, (after.stateOf name).status = (cluster.stateOf name).status ∧
      (after.stateOf name).seen = (cluster.stateOf name).seen ∧
      (after.stateOf name).deployment = (cluster.stateOf name).deployment)
    (hstands : ∀ name node, cluster.CountedOn name → cluster.lastPin name = some node →
      (cluster.stateOf name).ReadyOn node → (after.stateOf name).ReadyOn node)
    (hattached : ∀ name : String, cluster.world.children[name]? = none →
      after.services[name]? = none) :
    ReadyInv metadata after := by
  have hpin : ∀ index, after.world.pin metadata.name index =
      cluster.world.pin metadata.name index := by
    intro index
    rw [World.pin, World.pin, hchildren]
  have hphase : ∀ name, after.world.writtenPhase name = cluster.world.writtenPhase name := by
    intro name
    rw [World.writtenPhase, World.writtenPhase, hplacements]
  have hseen : ∀ name, after.lastSeen name = cluster.lastSeen name := by
    intro name
    rw [lastSeen, lastSeen, (hrecords name).2.1]
  have hpinned : ∀ name, after.lastPin name = cluster.lastPin name := by
    intro name
    rw [lastPin, lastPin, (hrecords name).2.1]
  constructor
  · intro name child hchild
    rw [hchildren] at hchild
    exact hinv.owned name child hchild
  · intro placement hmem
    rw [hplacements] at hmem
    simp only [hpin]
    exact hinv.agrees placement hmem
  · intro name hnone
    rw [hchildren] at hnone
    exact hattached name hnone
  · intro name status hstatus hready
    rw [(hrecords name).1] at hstatus
    rw [hseen]
    exact hinv.counted name status hstatus hready
  · intro index node status hnode hstatus hready
    rw [hpin] at hnode
    rw [(hrecords _).1] at hstatus
    rw [hpinned, hphase]
    exact hinv.moving index node status hnode hstatus hready
  · intro name sighting hsighting
    rw [(hrecords name).2.1] at hsighting
    rw [(hrecords name).2.2]
    exact hinv.templated name sighting hsighting
  · intro name node hcounted hnode hsaw
    have hbefore : cluster.CountedOn name := by
      rw [CountedOn, (hrecords name).1, hplacements] at hcounted
      exact hcounted
    rw [hpinned] at hnode
    rw [hseen] at hsaw
    exact hstands name node hbefore hnode (hinv.standing name node hbefore hnode hsaw)
  · intro placement hmem hready
    rw [hplacements] at hmem
    rw [hpinned]
    exact hinv.pinned placement hmem hready
  · intro placement hmem hready
    rw [hplacements] at hmem
    rw [hseen]
    exact hinv.shown placement hmem hready

/-! ## A fleet reconcile -/

section Fleet

variable {spec : FleetServiceSpec} {snapshot : Snapshot}

theorem stateOf_fleet (name : String) :
    (cluster.reconcileFleet metadata spec snapshot).stateOf name = {} ∨
      (cluster.reconcileFleet metadata spec snapshot).stateOf name = cluster.stateOf name := by
  unfold stateOf
  rcases @reconcileFleet_services cluster metadata spec snapshot name with heq | heq
  · left
    rw [heq]
    rfl
  · right
    rw [heq]

theorem kept_of_ready (hinv : ReadyInv metadata cluster)
    (hfull : (cluster.round spec snapshot).IsFull metadata) {index : Nat}
    {placement : PlacementStatus}
    (hplacement : (cluster.world.input metadata (cluster.round spec snapshot)).placementOf
      index = some placement)
    (hready : placement.phase = "Ready")
    (hafter : (cluster.world.reconcile metadata (cluster.round spec snapshot)).pin
      metadata.name index = some placement.nodeRef) :
    cluster.world.pin metadata.name index = some placement.nodeRef := by
  cases hbefore : cluster.world.pin metadata.name index with
  | none =>
      -- a slot without a child is new, and a new child has no status
      have hchild := (hinv.owned.pin_eq_none index).mp hbefore
      have hrange : index <
          (cluster.world.input metadata (cluster.round spec snapshot)).desired := by
        by_contra hrange
        rw [hinv.owned.reconcile_pin hfull, if_neg hrange, hbefore, ite_self] at hafter
        cases hafter
      rw [ReconcileInput.placementOf, if_pos hrange, Option.map_eq_some_iff] at hplacement
      obtain ⟨node, -, rfl⟩ := hplacement
      have hobserved : ((cluster.world.input metadata
          (cluster.round spec snapshot)).childReady[childName metadata.name index]?).getD false =
            true := (placementPhaseFor_ready hready).2.2.2
      rw [hinv.owned.childReady_lookup, hchild] at hobserved
      cases hobserved
  | some before =>
      by_contra hmoved
      have hne : before ≠ placement.nodeRef := fun heq => hmoved (congrArg some heq)
      obtain ⟨other, hother, -, hdraining⟩ :=
        hinv.owned.placementOf_moved hfull hbefore hafter hne
      rw [hplacement, Option.some.injEq] at hother
      rw [← hother, hready] at hdraining
      exact absurd hdraining (by decide)

theorem turned (hinv : ReadyInv metadata cluster)
    (hheeds : Heeds metadata cluster (.fleet spec snapshot))
    (hfull : (cluster.round spec snapshot).IsFull metadata) {index : Nat} {node : String}
    (hturns : cluster.TurnsReady metadata (cluster.round spec snapshot) index node) :
    cluster.CountedOn (childName metadata.name index) ∧
      cluster.lastPin (childName metadata.name index) = some node ∧
      ∃ pod ∈ cluster.lastSeen (childName metadata.name index),
        pod.ready = true ∧ pod.node = node := by
  obtain ⟨hsince, hgone⟩ := hheeds hfull index node hturns
  obtain ⟨hpin, -, hobserved, hphase⟩ := hturns
  obtain ⟨status, hstatus, hready⟩ := round_ready_iff.mp hobserved
  have hlast : cluster.lastPin (childName metadata.name index) = some node := by
    rcases hinv.moving index node status hpin hstatus hready with hlast | hdraining | hmoving
    · exact hlast
    · rw [hdraining] at hphase
      exact absurd hphase (by decide)
    · exact hsince hmoving
  obtain ⟨pod, hmem, hpod⟩ := hinv.counted _ status hstatus hready
  exact ⟨.inl ⟨status, hstatus, hready⟩, hlast, pod, hmem, hpod,
    Pod.node_of_hostname ((hgone pod hmem hpod).trans hlast)⟩

theorem ready_or_turns (hinv : ReadyInv metadata cluster) {index : Nat} {node : String}
    (hpin : cluster.world.pin metadata.name index = some node)
    (hready : (cluster.world.input metadata (cluster.round spec snapshot)).advancedPhase index
      (decide (index < (cluster.world.input metadata (cluster.round spec snapshot)).desired ∧
        node ∈ snapshot.displaced)) = "Ready") :
    cluster.world.writtenPhase (childName metadata.name index) = some "Ready" ∨
      cluster.TurnsReady metadata (cluster.round spec snapshot) index node := by
  obtain ⟨hflag, -, -, hobserved⟩ := placementPhaseFor_ready hready
  have hdraining : (cluster.world.writtenPhase (childName metadata.name index)).getD "Pending" ≠
      "Draining" := (placementPhaseFor_ready hready).2.1
  have hstatus := (hinv.owned.childReady_getD (cluster.round spec snapshot) hpin).symm.trans
    hobserved
  cases hphase : cluster.world.writtenPhase (childName metadata.name index) with
  | none =>
      refine .inr ⟨hpin, of_decide_eq_false hflag, hstatus, ?_⟩
      rw [hphase]
      decide
  | some phase =>
      have hwritten : phase ∈ placementPhases := (@World.StatusAgrees.prevPhase _ _
        (cluster.round spec snapshot) hinv.agrees index phase hphase).1
      rw [hphase, Option.getD_some] at hdraining
      simp only [placementPhases, List.mem_cons, List.not_mem_nil, or_false] at hwritten
      by_cases hbefore : phase = "Ready"
      · exact .inl (congrArg some hbefore)
      · refine .inr ⟨hpin, of_decide_eq_false hflag, hstatus, ?_⟩
        rw [hphase, Option.getD_some]
        simp only [List.mem_cons, List.not_mem_nil, or_false]
        tauto

/-- A placement written Ready is backed by what its child wrote and saw before. -/
theorem backed_fleet (hinv : ReadyInv metadata cluster)
    (hheeds : Heeds metadata cluster (.fleet spec snapshot))
    (hfull : (cluster.round spec snapshot).IsFull metadata) {placement : PlacementStatus}
    (hmem : placement ∈ (cluster.reconcileFleet metadata spec snapshot).world.placements)
    (hready : placement.phase = "Ready") :
    (cluster.reconcileFleet metadata spec snapshot).stateOf placement.vllmServiceRef =
        cluster.stateOf placement.vllmServiceRef ∧
      cluster.CountedOn placement.vllmServiceRef ∧
      cluster.lastPin placement.vllmServiceRef = some placement.nodeRef ∧
      ∃ pod ∈ cluster.lastSeen placement.vllmServiceRef,
        pod.ready = true ∧ pod.node = placement.nodeRef := by
  rw [reconcileFleet_world] at hmem
  obtain ⟨-, index, href, hafter⟩ := hinv.owned.statusAgrees_reconcile hfull placement hmem
  rw [World.reconcile_placements hfull] at hmem
  have hplacement := ReconcileInput.placement_unique hmem href
  have hbefore := hinv.kept_of_ready hfull hplacement hready hafter
  obtain ⟨other, hother, -, hphase⟩ := hinv.owned.placementOf_kept hfull hbefore hafter
  rw [hplacement, Option.some.injEq] at hother
  rw [← hother, hready] at hphase
  have hkept := reconcileFleet_kept hinv.owned hfull hbefore
    ((congrArg (fun world => World.pin world metadata.name index)
      (reconcileFleet_world metadata spec snapshot)).trans hafter)
  rw [href]
  refine ⟨hkept, ?_⟩
  rcases hinv.ready_or_turns hbefore hphase.symm with hwritten | hturns
  · obtain ⟨-, shown, hshown, hshownRef, hshownPhase, hshownPin⟩ :=
      @World.StatusAgrees.prevPhase _ _ (cluster.round spec snapshot) hinv.agrees index "Ready"
        hwritten
    obtain ⟨pod, hpod, hpodReady, hpodNode⟩ := hinv.shown shown hshown hshownPhase
    have hpinned := hinv.pinned shown hshown hshownPhase
    rw [hshownRef] at hpod hpinned
    rw [hbefore, Option.some.injEq] at hshownPin
    rw [← hshownPin] at hpodNode hpinned
    exact ⟨.inr ⟨shown, hshown, hshownRef, hshownPhase⟩, hpinned, pod, hpod, hpodReady, hpodNode⟩
  · exact hinv.turned hheeds hfull hturns

theorem standing_fleet (hinv : ReadyInv metadata cluster)
    (hheeds : Heeds metadata cluster (.fleet spec snapshot))
    (hfull : (cluster.round spec snapshot).IsFull metadata) {name node : String}
    (hcounted : (cluster.reconcileFleet metadata spec snapshot).CountedOn name)
    (hnode : (cluster.reconcileFleet metadata spec snapshot).lastPin name = some node)
    (hsaw : ∃ pod ∈ (cluster.reconcileFleet metadata spec snapshot).lastSeen name,
      pod.ready = true ∧ pod.node = node) :
    ((cluster.reconcileFleet metadata spec snapshot).stateOf name).ReadyOn node := by
  unfold lastPin at hnode
  unfold lastSeen at hsaw
  rcases @stateOf_fleet cluster metadata spec snapshot name with heq | heq
  · rw [heq] at hnode
    cases hnode
  · have hbefore : cluster.CountedOn name := by
      rcases hcounted with ⟨status, hstatus, hready⟩ | ⟨placement, hmem, rfl, hready⟩
      · rw [heq] at hstatus
        exact .inl ⟨status, hstatus, hready⟩
      · exact (hinv.backed_fleet hheeds hfull hmem hready).2.1
    rw [heq] at hnode hsaw ⊢
    exact hinv.standing name node hbefore hnode hsaw

theorem moving_kept (hinv : ReadyInv metadata cluster)
    (hheeds : Heeds metadata cluster (.fleet spec snapshot))
    (hfull : (cluster.round spec snapshot).IsFull metadata) {index : Nat} {node : String}
    {status : VllmServiceStatus} (hpin : cluster.world.pin metadata.name index = some node)
    (hstatus : (cluster.stateOf (childName metadata.name index)).status = some status)
    (hready : status.phase = "Ready") :
    let phase := (cluster.world.input metadata (cluster.round spec snapshot)).advancedPhase index
      (decide (index < (cluster.world.input metadata (cluster.round spec snapshot)).desired ∧
        node ∈ snapshot.displaced))
    cluster.lastPin (childName metadata.name index) = some node ∨
      phase = "Draining" ∨ phase = "Rescheduling" := by
  have hobserved : (cluster.round spec snapshot).ready metadata.name index = true :=
    round_ready_iff.mpr ⟨status, hstatus, hready⟩
  intro phase
  by_cases hflag : index < (cluster.world.input metadata (cluster.round spec snapshot)).desired ∧
      node ∈ snapshot.displaced
  · right
    left
    show placementPhaseFor _ _ _ = _
    rw [decide_eq_true hflag, placementPhaseFor_preempted]
  · rcases hinv.moving index node status hpin hstatus hready with hlast | hdraining | hmoving
    · exact .inl hlast
    · right
      right
      show placementPhaseFor _ _ _ = _
      rw [decide_eq_false hflag, World.prevPhase_lookup]
      change placementPhaseFor
        ((cluster.world.writtenPhase (childName metadata.name index)).getD "Pending") _ _ = _
      rw [hdraining]
      rfl
    · left
      refine (hheeds hfull index node ⟨hpin, hflag, hobserved, ?_⟩).1 hmoving
      rw [hmoving]
      decide

theorem attached_fleet (hinv : ReadyInv metadata cluster)
    (hfull : (cluster.round spec snapshot).IsFull metadata) (name : String)
    (hnone : (cluster.reconcileFleet metadata spec snapshot).world.children[name]? = none) :
    (cluster.reconcileFleet metadata spec snapshot).services[name]? = none := by
  rcases reconcileFleet_services name with habsent | hsame
  · exact habsent
  · cases hchild : cluster.world.children[name]? with
    | none => exact hsame.trans (hinv.attached name hchild)
    | some child =>
        obtain ⟨index, -, rfl, -, node, hnode⟩ := hinv.owned name child hchild
        have hbefore : cluster.world.pin metadata.name index = some node := by
          rw [World.pin, hchild]
          exact hnode
        refine reconcileFleet_deleted hinv.owned hfull hbefore ?_
        rw [World.pin, hnone]
        rfl

/-- A move is written Draining, and a slot that stays is on the way or was seen
since. -/
theorem moving_fleet (hinv : ReadyInv metadata cluster)
    (hheeds : Heeds metadata cluster (.fleet spec snapshot))
    (hfull : (cluster.round spec snapshot).IsFull metadata) {index : Nat} {node : String}
    {status : VllmServiceStatus}
    (hafter : (cluster.reconcileFleet metadata spec snapshot).world.pin metadata.name index =
      some node)
    (hstatus : ((cluster.reconcileFleet metadata spec snapshot).stateOf
      (childName metadata.name index)).status = some status)
    (hready : status.phase = "Ready") :
    let after := cluster.reconcileFleet metadata spec snapshot
    after.lastPin (childName metadata.name index) = some node ∨
      after.world.writtenPhase (childName metadata.name index) = some "Draining" ∨
      after.world.writtenPhase (childName metadata.name index) = some "Rescheduling" := by
  intro after
  cases hbefore : cluster.world.pin metadata.name index with
  | none =>
      -- a child created here stands alone
      have hgone := hinv.attached _ ((hinv.owned.pin_eq_none index).mp hbefore)
      rcases @reconcileFleet_services cluster metadata spec snapshot
        (childName metadata.name index) with heq | heq
      · rw [stateOf, heq] at hstatus
        cases hstatus
      · rw [stateOf, heq, hgone] at hstatus
        cases hstatus
  | some before =>
      have hworld := @reconcileFleet_world cluster metadata spec snapshot
      have hkept := reconcileFleet_kept hinv.owned hfull hbefore hafter
      rw [hkept] at hstatus
      rw [lastPin, hkept]
      rw [hworld] at hafter ⊢
      rw [World.writtenPhase_reconcile hfull]
      by_cases hsame : before = node
      · rw [hsame] at hbefore
        obtain ⟨placement, hplacement, -, hphase⟩ :=
          hinv.owned.placementOf_kept hfull hbefore hafter
        rw [hplacement, Option.map_some, hphase]
        rw [Option.some.injEq, Option.some.injEq]
        exact hinv.moving_kept hheeds hfull hbefore hstatus hready
      · obtain ⟨placement, hplacement, -, hphase⟩ :=
          hinv.owned.placementOf_moved hfull hbefore hafter hsame
        rw [hplacement, Option.map_some, hphase]
        exact .inr (.inl rfl)

theorem fleet (hinv : ReadyInv metadata cluster)
    (hheeds : Heeds metadata cluster (.fleet spec snapshot)) :
    ReadyInv metadata (cluster.reconcileFleet metadata spec snapshot) := by
  have hworld := @reconcileFleet_world cluster metadata spec snapshot
  by_cases hfull : (cluster.round spec snapshot).IsFull metadata
  · constructor
    · rw [hworld]
      exact hinv.owned.reconcile
    · rw [hworld]
      exact hinv.owned.statusAgrees_reconcile hfull
    · exact hinv.attached_fleet hfull
    · intro name status hstatus hready
      unfold lastSeen
      rcases @stateOf_fleet cluster metadata spec snapshot name with heq | heq
      · rw [heq] at hstatus
        cases hstatus
      · rw [heq] at hstatus ⊢
        exact hinv.counted name status hstatus hready
    · exact fun index node status hafter => hinv.moving_fleet hheeds hfull hafter
    · intro name sighting hseen
      rcases @stateOf_fleet cluster metadata spec snapshot name with heq | heq
      · rw [heq] at hseen
        cases hseen
      · rw [heq] at hseen ⊢
        exact hinv.templated name sighting hseen
    · exact fun name node => hinv.standing_fleet hheeds hfull
    · intro placement hmem hready
      obtain ⟨hkept, -, hlast, -⟩ := hinv.backed_fleet hheeds hfull hmem hready
      rw [lastPin, hkept]
      exact hlast
    · intro placement hmem hready
      obtain ⟨hkept, -, -, hsaw⟩ := hinv.backed_fleet hheeds hfull hmem hready
      rw [lastSeen, hkept]
      exact hsaw
  · obtain ⟨hchildren, hplacements⟩ := World.reconcile_of_not_isFull hfull
    have hservices := reconcileFleet_services_of_not_isFull hfull
    refine hinv.congr ?_ ?_ (fun name => ?_) (fun name node _ _ hready => ?_) fun name hnone => ?_
    · rw [hworld, hchildren]
    · rw [hworld, hplacements]
    · rw [stateOf, stateOf, hservices]
      exact ⟨rfl, rfl, rfl⟩
    · rw [stateOf, hservices]
      exact hready
    · rw [hservices]
      exact hinv.attached name hnone

end Fleet

/-! ## The other events -/

section Service

variable (environment : VllmServiceController.Environment) {name : String} {child : VllmService}

theorem attached_service (hinv : ReadyInv metadata cluster) (other : String)
    (hnone : cluster.world.children[other]? = none) :
    (cluster.reconcileService environment name).services[other]? = none := by
  rw [reconcileService_services environment hnone]
  exact hinv.attached other hnone

/-- Its controller writes the child Ready only with a ready pod counted, and
rewrites the template it pins. -/
theorem service_written (hinv : ReadyInv metadata cluster)
    (hchild : cluster.world.children[name]? = some child) {ns : String}
    (hns : child.metadata.ns = some ns) :
    ReadyInv metadata (cluster.reconcileService environment name) := by
  have hworld := @reconcileService_world cluster environment name
  have hstate := @reconcileService_stateOf cluster environment name child hchild
  obtain ⟨deployment, htemplate, hwritten⟩ :=
    (cluster.stateOf name).reconcile_eq environment hns
  have hself : (cluster.reconcileService environment name).stateOf name = _ :=
    (hstate name).trans ((if_pos rfl).trans hwritten)
  have hother : ∀ other, name ≠ other →
      (cluster.reconcileService environment name).stateOf other = cluster.stateOf other := by
    intro other hne
    rw [hstate, if_neg hne]
  constructor
  · rw [hworld]
    exact hinv.owned
  · rw [hworld]
    exact hinv.agrees
  · rw [hworld]
    exact hinv.attached_service environment
  · intro other status hstatus hready
    unfold lastSeen
    by_cases heq : name = other
    · subst heq
      rw [hself] at hstatus ⊢
      cases hstatus
      exact (cluster.stateOf name).exists_ready hready
    · rw [hother other heq] at hstatus ⊢
      exact hinv.counted other status hstatus hready
  · intro index node status hpin hstatus hready
    rw [hworld] at hpin ⊢
    unfold lastPin
    by_cases heq : name = childName metadata.name index
    · left
      rw [← heq, hself]
      rw [World.pin, ← heq, hchild] at hpin
      exact (ServiceState.hostname_podTemplate child).trans hpin
    · rw [hother _ heq] at hstatus ⊢
      exact hinv.moving index node status hpin hstatus hready
  · intro other sighting hseen
    by_cases heq : name = other
    · subst heq
      rw [hself] at hseen ⊢
      cases hseen
      exact ⟨deployment, rfl, htemplate⟩
    · rw [hother other heq] at hseen ⊢
      exact hinv.templated other sighting hseen
  · intro other node hcounted hnode hsaw
    unfold lastPin at hnode
    unfold lastSeen at hsaw
    unfold CountedOn at hcounted
    by_cases heq : name = other
    · subst heq
      rw [hself] at hsaw ⊢
      exact hsaw
    · rw [hother other heq] at hcounted hnode hsaw ⊢
      rw [hworld] at hcounted
      exact hinv.standing other node hcounted hnode hsaw
  · intro placement hmem hready
    rw [hworld] at hmem
    unfold lastPin
    by_cases heq : name = placement.vllmServiceRef
    · rw [← heq, hself]
      obtain ⟨-, index, href, hpin⟩ := hinv.agrees placement hmem
      rw [World.pin, ← href, ← heq, hchild] at hpin
      exact (ServiceState.hostname_podTemplate child).trans hpin
    · rw [hother _ heq]
      exact hinv.pinned placement hmem hready
  · intro placement hmem hready
    rw [hworld] at hmem
    unfold lastSeen
    by_cases heq : name = placement.vllmServiceRef
    · have hstands := hinv.standing _ _ (.inr ⟨placement, hmem, rfl, hready⟩)
        (hinv.pinned placement hmem hready) (hinv.shown placement hmem hready)
      rw [← heq] at hstands ⊢
      rw [hself]
      exact hstands
    · rw [hother _ heq]
      exact hinv.shown placement hmem hready

theorem service (hinv : ReadyInv metadata cluster) :
    ReadyInv metadata (cluster.reconcileService environment name) := by
  cases hchild : cluster.world.children[name]? with
  | none =>
      rw [reconcileService, hchild]
      exact hinv
  | some child =>
      cases hns : child.metadata.ns with
      | some ns => exact hinv.service_written environment hchild hns
      | none =>
          have hworld := @reconcileService_world cluster environment name
          have hsame : ∀ other, (cluster.reconcileService environment name).stateOf other =
              cluster.stateOf other := by
            intro other
            rw [reconcileService_stateOf environment hchild,
              ServiceState.reconcile_of_no_namespace _ _ hns]
            split
            · next heq => rw [heq]
            · rfl
          refine hinv.congr (by rw [hworld]) (by rw [hworld]) (fun other => ?_)
            (fun other node _ _ hready => ?_) (hinv.attached_service environment)
          · rw [hsame other]
            exact ⟨rfl, rfl, rfl⟩
          · rw [hsame other]
            exact hready

end Service

theorem pods (hinv : ReadyInv metadata cluster) (name : String)
    {change : ServiceState → ServiceState} (hchange : ServiceState.KeepsRecords change)
    (hstands : cluster.CountedOn name → ∀ node, cluster.lastPin name = some node →
      (cluster.stateOf name).ReadyOn node → (change (cluster.stateOf name)).ReadyOn node) :
    ReadyInv metadata (cluster.changePods name change) := by
  have hworld := @changePods_world cluster name change
  refine hinv.congr (by rw [hworld]) (by rw [hworld]) (fun other => ?_)
    (fun other node hcounted hnode hready => ?_) fun other hnone => ?_
  · exact changePods_records name other hchange
  · rcases @changePods_stateOf cluster change name other with heq | ⟨rfl, heq⟩
    · rw [heq]
      exact hready
    · rw [heq]
      exact hstands hcounted node hnode hready
  · exact changePods_services name other (hinv.attached other hnone)

theorem inForce (hinv : ReadyInv metadata cluster) {name node : String}
    (hnode : cluster.lastPin name = some node) :
    ∃ deployment, (cluster.stateOf name).deployment = some deployment ∧
      deployment.spec.template.hostname = some node := by
  obtain ⟨sighting, hseen, hhostname⟩ := Option.bind_eq_some_iff.mp hnode
  obtain ⟨deployment, hdeployment, htemplate⟩ := hinv.templated name sighting hseen
  exact ⟨deployment, hdeployment, (congrArg PodTemplateSpec.hostname htemplate).trans hhostname⟩

end ReadyInv

instance (cluster : Cluster) (round : Round) (index : Nat) (node : String) :
    Decidable (cluster.TurnsReady metadata round index node) :=
  inferInstanceAs (Decidable (_ ∧ _))

instance (cluster : Cluster) (name : String) : Decidable (cluster.CountedOn name) :=
  inferInstanceAs (Decidable ((∃ status ∈ (cluster.stateOf name).status, _) ∨
    ∃ placement ∈ cluster.world.placements, _))

instance (state : ServiceState) (node : String) : Decidable (state.ReadyOn node) :=
  inferInstanceAs (Decidable (∃ pod ∈ state.pods, _))

instance (cluster : Cluster) (name : String) (position : Nat) (ready : Bool) :
    Decidable (Heeds metadata cluster (.setReady name position ready)) :=
  inferInstanceAs (Decidable (_ → ∀ node ∈ cluster.lastPin name, _ → _))

instance (cluster : Cluster) : Decidable cluster.ReadyShown :=
  inferInstanceAs (Decidable (∀ placement ∈ cluster.world.placements, _ →
    ∃ pod ∈ cluster.lastSeen placement.vllmServiceRef, _))

theorem ReadyInv.next (hinv : ReadyInv metadata cluster)
    (environment : VllmServiceController.Environment) {event : Event}
    (hheeds : Heeds metadata cluster event) :
    ReadyInv metadata (cluster.next metadata environment event) := by
  cases event with
  | fleet spec snapshot => exact hinv.fleet hheeds
  | service name => exact hinv.service environment
  | createPod name node =>
      exact hinv.pods name (ServiceState.createPod_keepsRecords node)
        fun _ _ _ hready => hready.createPod node
  | setReady name position ready =>
      exact hinv.pods name (ServiceState.setReady_keepsRecords position ready) hheeds
  | removePod name position =>
      refine hinv.pods name (ServiceState.removePod_keepsRecords position)
        fun _ node hnode hready => ?_
      obtain ⟨deployment, hdeployment, hpin⟩ := hinv.inForce hnode
      exact hready.removePod position hdeployment hpin

end Cluster

def clusterRun (metadata : ObjectMeta) (environment : VllmServiceController.Environment)
    (events : Nat → Event) : Nat → Cluster :=
  run (fun event cluster => cluster.next metadata environment event) events Cluster.empty

/-- In every interleaving whose events go no way round the pods, a placement
reported Ready on a node is one whose child was last seen with a ready pod there. -/
theorem ready_backed_by_pod (metadata : ObjectMeta)
    (environment : VllmServiceController.Environment) (events : Nat → Event) (time : Nat)
    (hheeds : ∀ earlier < time,
      Cluster.Heeds metadata (clusterRun metadata environment events earlier) (events earlier)) :
    (clusterRun metadata environment events time).ReadyShown :=
  (run_invariant (Cluster.empty_readyInv metadata)
    (fun _ _ hheeds hinv => Cluster.ReadyInv.next hinv environment hheeds) time hheeds).shown

namespace Sample

def environment : VllmServiceController.Environment := ⟨none, none, none⟩

def fleetEvent (noticed : List String) : Event :=
  .fleet (spec 1 1 1) (snapshot ["a", "b"] noticed)

/-- The replica comes up on `b`. -/
def comesUp : List Event :=
  [fleetEvent [], .service "fleet-0", .createPod "fleet-0" "b", .setReady "fleet-0" 0 true,
    .service "fleet-0", fleetEvent []]

/-- The replica moves off `b`, its pod on `a` turns ready and is seen. -/
def movesOver : List Event :=
  comesUp ++ [fleetEvent ["b"], .service "fleet-0", .createPod "fleet-0" "a",
    .setReady "fleet-0" 1 true, .removePod "fleet-0" 0, .service "fleet-0", fleetEvent ["b"],
    fleetEvent ["b"]]

/-- The replica moves off `b` and its pod on `a` is not ready yet. -/
def movesEarly : List Event :=
  comesUp ++ [fleetEvent ["b"], .service "fleet-0", .createPod "fleet-0" "a",
    fleetEvent ["b"], fleetEvent ["b"]]

def clusterAfter (events : List Event) (time : Nat) : Cluster :=
  clusterRun metadata environment (fun earlier => events.getD earlier (fleetEvent [])) time

theorem heeds_fleet_alone {cluster : Cluster} {noticed : List String}
    (halone : cluster.world.children.toList.map Prod.fst ⊆ ["fleet-0"])
    (hslot : ∀ node ∈ cluster.world.pin metadata.name 0,
      cluster.TurnsReady metadata (cluster.round (spec 1 1 1) (snapshot ["a", "b"] noticed))
        0 node →
      cluster.lastPin "fleet-0" = some node ∧ ∀ pod ∈ cluster.lastSeen "fleet-0",
        pod.ready = true → pod.template.hostname = cluster.lastPin "fleet-0") :
    Cluster.Heeds metadata cluster (fleetEvent noticed) := by
  intro _ index node hturns
  obtain ⟨child, hchild, -⟩ := Option.bind_eq_some_iff.mp hturns.1
  have hname : childName metadata.name index = childName metadata.name 0 := by
    have hmem := halone ((BTreeMap.mem_keys_iff _ _).mpr ⟨child, hchild⟩)
    exact (List.mem_singleton.mp hmem).trans (by decide)
  obtain rfl : index = 0 := childName_injective _ hname
  have hdone := hslot node hturns.1 hturns
  exact ⟨fun _ => hdone.1, hdone.2⟩

theorem heeds_movesOver {earlier : Nat} (hlt : earlier < movesOver.length) :
    Cluster.Heeds metadata (clusterAfter movesOver earlier)
      (movesOver.getD earlier (fleetEvent [])) := by
  have hlength : movesOver.length = 14 := rfl
  rw [hlength] at hlt
  interval_cases earlier
  · exact heeds_fleet_alone (by decide +kernel) (by decide +kernel)
  · trivial
  · trivial
  · change Cluster.Heeds metadata _ (.setReady "fleet-0" 0 true)
    decide +kernel
  · trivial
  · exact heeds_fleet_alone (by decide +kernel) (by decide +kernel)
  · exact heeds_fleet_alone (by decide +kernel) (by decide +kernel)
  · trivial
  · trivial
  · change Cluster.Heeds metadata _ (.setReady "fleet-0" 1 true)
    decide +kernel
  · trivial
  · trivial
  · exact heeds_fleet_alone (by decide +kernel) (by decide +kernel)
  · exact heeds_fleet_alone (by decide +kernel) (by decide +kernel)

/-- The replica that moved is reported Ready on `a` once its pod there was seen. -/
theorem ready_backed_by_pod_sample :
    (clusterAfter movesOver 14).world.placements.map (fun placement =>
      (placement.nodeRef, placement.phase)) = [("a", "Ready")] ∧
    (clusterAfter movesOver 14).ReadyShown :=
  ⟨by decide +kernel, ready_backed_by_pod metadata environment _ 14 fun _ => heeds_movesOver⟩

/-- The replica that moved is reported Ready on `a` while the only ready pod its
child has seen is the old one on `b`. -/
theorem ready_backed_by_pod_counterexample :
    (clusterAfter movesEarly 11).world.placements.map (fun placement =>
      (placement.nodeRef, placement.phase)) = [("a", "Ready")] ∧
    ((clusterAfter movesEarly 11).lastSeen "fleet-0").map Pod.node = ["b"] ∧
    ¬ (clusterAfter movesEarly 11).ReadyShown := by
  refine ⟨?_, ?_, ?_⟩
  all_goals decide +kernel

end Sample

end VllmColdstartOperator
