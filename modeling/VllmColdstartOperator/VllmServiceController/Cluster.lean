import VllmColdstartOperator.FleetController.World
import VllmColdstartOperator.Foundation.Runs
import VllmColdstartOperator.VllmServiceController.Objects

/-!
# Both controllers and the pods

A `Cluster` is the world the fleet controller writes and, for each child its own
controller has reconciled, a `ServiceState`: the Deployment and the status
written, the pods, and the pods the last reconcile saw.  An `Event` is a
reconcile of either controller or a step of the rollout: a pod of the template
in force is created while the surge allows, a pod turns ready or unready, and a
ready pod of an older template stays until one of the template in force is ready.
-/

namespace VllmColdstartOperator

open Foundation Std

namespace PodTemplateSpec

def hostname (template : PodTemplateSpec) : Option String :=
  template.spec.nodeSelector.bind fun selector => selector[VllmServiceController.hostnameLabel]?

def Admits (template : PodTemplateSpec) (node : String) : Prop :=
  template.hostname = none ∨ template.hostname = some node

instance (template : PodTemplateSpec) (node : String) : Decidable (template.Admits node) :=
  inferInstanceAs (Decidable (_ ∨ _))

end PodTemplateSpec

/-- A pod, on a node its template's selector admits. -/
structure Pod where
  template : PodTemplateSpec
  node : String
  ready : Bool
  admitted : template.Admits node

theorem Pod.node_of_hostname {pod : Pod} {node : String}
    (hhostname : pod.template.hostname = some node) : pod.node = node := by
  rcases pod.admitted with hnone | hsome
  · rw [hnone] at hhostname
    cases hhostname
  · rw [hsome] at hhostname
    exact Option.some.inj hhostname

/-- What a reconcile saw: the template it applied and the pods there were. -/
structure Sighting where
  template : PodTemplateSpec
  pods : List Pod

structure ServiceState where
  deployment : Option Deployment := none
  status : Option VllmServiceStatus := none
  pods : List Pod := []
  seen : Option Sighting := none

namespace ServiceState

variable (state : ServiceState)

/-- `status.readyReplicas` of the Deployment, absent when it would be zero. -/
def readyReplicas : Option Int32 :=
  match state.pods.countP Pod.ready with
  | 0 => none
  | count + 1 => some (Int32.ofNat (count + 1))

def perform : VllmServiceController.Call → ServiceState
  | .applyDeployment deployment =>
      { state with
        deployment := some deployment
        seen := some ⟨deployment.spec.template, state.pods⟩ }
  | .applyService _ => state
  | .applyNetworkPolicy _ => state
  | .patchStatus status => { state with status := some status }

def reconcile (environment : VllmServiceController.Environment) (child : VllmService) :
    ServiceState :=
  match VllmServiceController.reconcileInner child environment state.readyReplicas with
  | .ok calls => calls.foldl perform state
  | .error _ => state

def attempt (environment : VllmServiceController.Environment) (child : VllmService)
    (made : Nat) : ServiceState :=
  match VllmServiceController.reconcileInner child environment state.readyReplicas with
  | .ok calls => (calls.take made).foldl perform state
  | .error _ => state

theorem reconcile_eq_attempt (environment : VllmServiceController.Environment)
    (child : VllmService) :
    ∃ made, state.reconcile environment child = state.attempt environment child made := by
  unfold reconcile attempt
  cases VllmServiceController.reconcileInner child environment state.readyReplicas with
  | error error => exact ⟨0, rfl⟩
  | ok calls => exact ⟨calls.length, by simp only [List.take_length]⟩

@[simp] theorem hostname_podTemplate (child : VllmService) :
    (VllmServiceController.podTemplate child).hostname = child.spec.nodeName := by
  unfold PodTemplateSpec.hostname VllmServiceController.podTemplate
  unfold VllmServiceController.nodeSelector
  cases child.spec.nodeName with
  | none => rfl
  | some node => simp [BTreeMap.lookup_collect]

/-- What one reconcile leaves: its Deployment, the phase of the ready pods it
counted, and those pods as the last it saw. -/
theorem reconcile_eq (environment : VllmServiceController.Environment) {child : VllmService}
    {ns : String} (hns : child.metadata.ns = some ns) :
    ∃ deployment : Deployment,
      deployment.spec.template = VllmServiceController.podTemplate child ∧
      state.reconcile environment child =
        { deployment := some deployment
          status := some ⟨(phaseFor child.spec.replicas (state.readyReplicas.getD 0)).1,
            (phaseFor child.spec.replicas (state.readyReplicas.getD 0)).2⟩
          pods := state.pods
          seen := some ⟨VllmServiceController.podTemplate child, state.pods⟩ } := by
  unfold reconcile VllmServiceController.reconcileInner
  rw [VllmServiceController.buildDeployment, VllmServiceController.buildService,
    VllmServiceController.buildNetworkPolicyWith, hns]
  cases environment.policyEnabled with
  | false => exact ⟨_, rfl, rfl⟩
  | true => exact ⟨_, rfl, rfl⟩

theorem reconcile_of_no_namespace (environment : VllmServiceController.Environment)
    {child : VllmService} (hns : child.metadata.ns = none) :
    state.reconcile environment child = state := by
  unfold reconcile VllmServiceController.reconcileInner
  rw [VllmServiceController.buildDeployment, hns]
  rfl

theorem applied_single {environment : VllmServiceController.Environment} {child : VllmService}
    {ready : Option Int32} {calls : List VllmServiceController.Call}
    (hone : child.spec.replicas = 1)
    (hcalls : VllmServiceController.reconcileInner child environment ready = .ok calls)
    {deployment : Deployment} (hmem : .applyDeployment deployment ∈ calls) :
    deployment.spec.replicas = 1 ∧ deployment.spec.strategy.maxSurge = 1 := by
  unfold VllmServiceController.reconcileInner at hcalls
  rw [VllmServiceController.buildDeployment, VllmServiceController.buildService,
    VllmServiceController.buildNetworkPolicyWith] at hcalls
  cases hns : child.metadata.ns with
  | none =>
      rw [hns] at hcalls
      cases hcalls
  | some ns =>
      rw [hns] at hcalls
      obtain rfl := Except.ok.inj hcalls
      have happlied : deployment.spec.replicas = child.spec.replicas ∧
          deployment.spec.strategy.maxSurge = 1 := by
        cases environment.policyEnabled with
        | false => simp_all
        | true => simp_all
      exact ⟨happlied.1.trans hone, happlied.2⟩

theorem exists_ready {desired : Int32}
    (hphase : (phaseFor desired (state.readyReplicas.getD 0)).1 = "Ready") :
    ∃ pod ∈ state.pods, pod.ready = true := by
  rw [← List.countP_pos_iff]
  by_contra hzero
  rw [readyReplicas, Nat.eq_zero_of_not_pos hzero] at hphase
  simp [phaseFor] at hphase

def createPod (node : String) : ServiceState :=
  match state.deployment with
  | none => state
  | some deployment =>
      let current := state.pods.countP fun pod => pod.template = deployment.spec.template
      let replicas := deployment.spec.replicas.toInt
      if hcreate : deployment.spec.template.Admits node ∧ (current : Int) < replicas ∧
          (state.pods.length : Int) < replicas + deployment.spec.strategy.maxSurge.toInt then
        { state with
          pods := state.pods ++ [⟨deployment.spec.template, node, false, hcreate.1⟩] }
      else state

def setReady (position : Nat) (ready : Bool) : ServiceState :=
  { state with pods := state.pods.modify position fun pod => { pod with ready := ready } }

def removePod (position : Nat) : ServiceState :=
  match state.deployment, state.pods[position]? with
  | some deployment, some pod =>
      if pod.ready = false ∨ pod.template ≠ deployment.spec.template ∧
          ∃ other ∈ state.pods, other.template = deployment.spec.template ∧
            other.ready = true then
        { state with pods := state.pods.eraseIdx position }
      else state
  | _, _ => state

/-- Whether a change leaves what the child's controller wrote and saw. -/
def KeepsRecords (change : ServiceState → ServiceState) : Prop :=
  ∀ state, (change state).status = state.status ∧ (change state).seen = state.seen ∧
    (change state).deployment = state.deployment

theorem createPod_keepsRecords (node : String) :
    KeepsRecords fun state => state.createPod node := by
  intro state
  dsimp only
  unfold createPod
  split
  · exact ⟨rfl, rfl, rfl⟩
  · dsimp only
    split
    · exact ⟨rfl, rfl, rfl⟩
    · exact ⟨rfl, rfl, rfl⟩

theorem setReady_keepsRecords (position : Nat) (ready : Bool) :
    KeepsRecords fun state => state.setReady position ready :=
  fun _ => ⟨rfl, rfl, rfl⟩

theorem removePod_keepsRecords (position : Nat) :
    KeepsRecords fun state => state.removePod position := by
  intro state
  dsimp only
  unfold removePod
  split
  · split
    · exact ⟨rfl, rfl, rfl⟩
    · exact ⟨rfl, rfl, rfl⟩
  · exact ⟨rfl, rfl, rfl⟩

end ServiceState

structure Cluster where
  world : World
  services : BTreeMap String ServiceState

inductive Event where
  | fleet (spec : FleetServiceSpec) (snapshot : Snapshot)
  | service (name : String)
  | createPod (name node : String)
  | setReady (name : String) (position : Nat) (ready : Bool)
  | removePod (name : String) (position : Nat)

namespace Cluster

def empty : Cluster := ⟨⟨none, ∅⟩, ∅⟩

variable (cluster : Cluster)

def stateOf (name : String) : ServiceState := (cluster.services[name]?).getD {}

def lastSeen (name : String) : List Pod :=
  ((cluster.stateOf name).seen.map Sighting.pods).getD []

def lastPin (name : String) : Option String :=
  (cluster.stateOf name).seen.bind fun sighting => sighting.template.hostname

def round (spec : FleetServiceSpec) (snapshot : Snapshot) : Round where
  spec := spec
  snapshot := snapshot
  observed := fun name => (cluster.stateOf name).status

/-- The Deployment and the pods of a deleted child go with it. -/
def perform (call : Call) : Cluster where
  world := cluster.world.perform call
  services :=
    match call with
    | .deleteChild name => cluster.services.erase name
    | _ => cluster.services

def performAll (calls : List Call) : Cluster := calls.foldl perform cluster

def reconcileFleet (metadata : ObjectMeta) (spec : FleetServiceSpec) (snapshot : Snapshot) :
    Cluster :=
  match reconcileInner (cluster.world.input metadata (cluster.round spec snapshot)) with
  | .ok calls => cluster.performAll calls
  | .error _ => cluster

def reconcileService (environment : VllmServiceController.Environment) (name : String) :
    Cluster :=
  match cluster.world.children[name]? with
  | none => cluster
  | some child =>
      let state := (cluster.stateOf name).reconcile environment child
      { cluster with services := cluster.services.insert name state }

/-- A fleet reconcile that is cut, or fails, after some of its calls. -/
def attemptFleet (metadata : ObjectMeta) (spec : FleetServiceSpec) (snapshot : Snapshot)
    (made : Nat) : Cluster :=
  match reconcileInner (cluster.world.input metadata (cluster.round spec snapshot)) with
  | .ok calls => cluster.performAll (calls.take made)
  | .error _ => cluster

/-- A child's own reconcile that is cut, or fails, after some of its calls. -/
def attemptService (environment : VllmServiceController.Environment) (name : String)
    (made : Nat) : Cluster :=
  match cluster.world.children[name]? with
  | none => cluster
  | some child =>
      let state := (cluster.stateOf name).attempt environment child made
      { cluster with services := cluster.services.insert name state }

def changePods (name : String) (change : ServiceState → ServiceState) : Cluster :=
  match cluster.services[name]? with
  | none => cluster
  | some state => { cluster with services := cluster.services.insert name (change state) }

def next (metadata : ObjectMeta) (environment : VllmServiceController.Environment)
    (event : Event) : Cluster :=
  match event with
  | .fleet spec snapshot => cluster.reconcileFleet metadata spec snapshot
  | .service name => cluster.reconcileService environment name
  | .createPod name node => cluster.changePods name fun state => state.createPod node
  | .setReady name position ready =>
      cluster.changePods name fun state => state.setReady position ready
  | .removePod name position => cluster.changePods name fun state => state.removePod position

/-! ## What an event leaves -/

variable {cluster}

theorem performAll_world (calls : List Call) :
    (cluster.performAll calls).world = cluster.world.performAll calls := by
  induction calls generalizing cluster with
  | nil => rfl
  | cons call calls ih => exact @ih (cluster.perform call)

theorem performAll_kept {calls : List Call} {name : String}
    (hkept : .deleteChild name ∉ calls) :
    (cluster.performAll calls).services[name]? = cluster.services[name]? := by
  induction calls generalizing cluster with
  | nil => rfl
  | cons call calls ih =>
      obtain ⟨hcall, hcalls⟩ := not_or.mp (List.mem_cons.not.mp hkept)
      have hstep : (cluster.perform call).services[name]? = cluster.services[name]? := by
        cases call with
        | applyChild child => rfl
        | patchStatus patch => rfl
        | deleteChild other =>
            have hne : other ≠ name := fun heq => hcall (heq ▸ rfl)
            rw [perform, BTreeMap.lookup_erase, if_neg hne]
      exact (@ih (cluster.perform call) hcalls).trans hstep

theorem performAll_deleted {calls : List Call} {name : String}
    (hdeleted : .deleteChild name ∈ calls) :
    (cluster.performAll calls).services[name]? = none := by
  induction calls generalizing cluster with
  | nil => cases hdeleted
  | cons call calls ih =>
      by_cases hlater : .deleteChild name ∈ calls
      · exact @ih (cluster.perform call) hlater
      · refine (@performAll_kept (cluster.perform call) calls name hlater).trans ?_
        obtain rfl : .deleteChild name = call :=
          (List.mem_cons.mp hdeleted).resolve_right hlater
        rw [perform, BTreeMap.lookup_erase, if_pos rfl]

theorem performAll_services (calls : List Call) (name : String) :
    (cluster.performAll calls).services[name]? = none ∨
      (cluster.performAll calls).services[name]? = cluster.services[name]? := by
  by_cases hdeleted : .deleteChild name ∈ calls
  · exact .inl (performAll_deleted hdeleted)
  · exact .inr (performAll_kept hdeleted)

theorem reconcileFleet_world (metadata : ObjectMeta) (spec : FleetServiceSpec)
    (snapshot : Snapshot) :
    (cluster.reconcileFleet metadata spec snapshot).world =
      cluster.world.reconcile metadata (cluster.round spec snapshot) := by
  unfold reconcileFleet World.reconcile
  cases reconcileInner (cluster.world.input metadata (cluster.round spec snapshot)) with
  | error error => rfl
  | ok calls => exact performAll_world calls

section Fleet

variable {metadata : ObjectMeta} {spec : FleetServiceSpec} {snapshot : Snapshot}

theorem reconcileFleet_of_isFull (hfull : (cluster.round spec snapshot).IsFull metadata) :
    cluster.reconcileFleet metadata spec snapshot =
      cluster.performAll
        ((cluster.world.input metadata (cluster.round spec snapshot)).childCalls ++
          [.patchStatus (.full
            (cluster.world.input metadata (cluster.round spec snapshot)).fullStatus)]) := by
  rw [reconcileFleet, ReconcileInput.reconcileInner_of_isFull (World.isFull_input.mpr hfull)]

theorem reconcileFleet_services (name : String) :
    (cluster.reconcileFleet metadata spec snapshot).services[name]? = none ∨
      (cluster.reconcileFleet metadata spec snapshot).services[name]? =
        cluster.services[name]? := by
  unfold reconcileFleet
  cases reconcileInner (cluster.world.input metadata (cluster.round spec snapshot)) with
  | error error => exact .inr rfl
  | ok calls => exact performAll_services calls name

theorem reconcileFleet_services_of_not_isFull
    (hfull : ¬ (cluster.round spec snapshot).IsFull metadata) :
    (cluster.reconcileFleet metadata spec snapshot).services = cluster.services := by
  unfold reconcileFleet
  rcases ReconcileInput.reconcileInner_of_not_isFull (World.isFull_input.not.mpr hfull) with
    ⟨error, heq⟩ | ⟨text, heq⟩
  · rw [heq]
  · rw [heq]
    rfl

variable (howned : cluster.world.Owned metadata.name)
  (hfull : (cluster.round spec snapshot).IsFull metadata)

include howned hfull

theorem reconcileFleet_kept {index : Nat} {before after : String}
    (hbefore : cluster.world.pin metadata.name index = some before)
    (hafter : (cluster.reconcileFleet metadata spec snapshot).world.pin metadata.name index =
      some after) :
    (cluster.reconcileFleet metadata spec snapshot).stateOf (childName metadata.name index) =
      cluster.stateOf (childName metadata.name index) := by
  rw [reconcileFleet_world] at hafter
  have hkept := (howned.deleted_iff hfull hbefore).not.mpr (by simp [hafter])
  rw [stateOf, stateOf, reconcileFleet_of_isFull hfull, performAll_kept]
  simpa using hkept

theorem reconcileFleet_deleted {index : Nat} {before : String}
    (hbefore : cluster.world.pin metadata.name index = some before)
    (hafter : (cluster.reconcileFleet metadata spec snapshot).world.pin metadata.name index =
      none) :
    (cluster.reconcileFleet metadata spec snapshot).services[
      childName metadata.name index]? = none := by
  rw [reconcileFleet_world] at hafter
  have hdeleted := (howned.deleted_iff hfull hbefore).mpr hafter
  rw [reconcileFleet_of_isFull hfull]
  exact performAll_deleted (List.mem_append_left _ hdeleted)

end Fleet

theorem reconcileService_world (environment : VllmServiceController.Environment)
    (name : String) : (cluster.reconcileService environment name).world = cluster.world := by
  unfold reconcileService
  cases cluster.world.children[name]? <;> rfl

theorem reconcileFleet_eq_attempt (cluster : Cluster) (metadata : ObjectMeta)
    (spec : FleetServiceSpec) (snapshot : Snapshot) :
    ∃ made, cluster.reconcileFleet metadata spec snapshot =
      cluster.attemptFleet metadata spec snapshot made := by
  unfold reconcileFleet attemptFleet
  cases reconcileInner (cluster.world.input metadata (cluster.round spec snapshot)) with
  | error error => exact ⟨0, rfl⟩
  | ok calls => exact ⟨calls.length, by simp only [List.take_length]⟩

theorem reconcileService_eq_attempt (cluster : Cluster)
    (environment : VllmServiceController.Environment) (name : String) :
    ∃ made, cluster.reconcileService environment name =
      cluster.attemptService environment name made := by
  unfold reconcileService attemptService
  cases cluster.world.children[name]? with
  | none => exact ⟨0, rfl⟩
  | some child =>
      obtain ⟨made, heq⟩ := (cluster.stateOf name).reconcile_eq_attempt environment child
      exact ⟨made, by simp only [heq]⟩

theorem attemptFleet_world (metadata : ObjectMeta) (spec : FleetServiceSpec)
    (snapshot : Snapshot) (made : Nat) :
    (cluster.attemptFleet metadata spec snapshot made).world =
      cluster.world.attempt metadata (cluster.round spec snapshot) made := by
  unfold attemptFleet World.attempt
  cases reconcileInner (cluster.world.input metadata (cluster.round spec snapshot)) with
  | error error => rfl
  | ok calls => exact performAll_world (calls.take made)

theorem attemptFleet_stateOf (metadata : ObjectMeta) (spec : FleetServiceSpec)
    (snapshot : Snapshot) (made : Nat) (name : String) :
    (cluster.attemptFleet metadata spec snapshot made).stateOf name = {} ∨
      (cluster.attemptFleet metadata spec snapshot made).stateOf name = cluster.stateOf name := by
  unfold attemptFleet
  cases reconcileInner (cluster.world.input metadata (cluster.round spec snapshot)) with
  | error error => exact .inr rfl
  | ok calls =>
      rcases performAll_services (calls.take made) name with heq | heq
      · exact .inl (congrArg (fun state : Option ServiceState => state.getD {}) heq)
      · exact .inr (congrArg (fun state : Option ServiceState => state.getD {}) heq)

theorem changePods_world (name : String) (change : ServiceState → ServiceState) :
    (cluster.changePods name change).world = cluster.world := by
  unfold changePods
  cases cluster.services[name]? <;> rfl

theorem reconcileService_stateOf (environment : VllmServiceController.Environment)
    {name : String} {child : VllmService} (hchild : cluster.world.children[name]? = some child)
    (other : String) :
    (cluster.reconcileService environment name).stateOf other =
      if name = other then (cluster.stateOf name).reconcile environment child
      else cluster.stateOf other := by
  rw [reconcileService, hchild, stateOf]
  dsimp only
  rw [BTreeMap.lookup_insert]
  split
  · rfl
  · rfl

theorem reconcileService_services (environment : VllmServiceController.Environment)
    {name other : String} (hnone : cluster.world.children[other]? = none) :
    (cluster.reconcileService environment name).services[other]? = cluster.services[other]? := by
  unfold reconcileService
  cases hchild : cluster.world.children[name]? with
  | none => rfl
  | some child =>
      have hne : name ≠ other := by
        rintro rfl
        rw [hchild] at hnone
        cases hnone
      exact BTreeMap.lookup_insert_of_ne _ _ hne

section Pods

variable {change : ServiceState → ServiceState} (name other : String)

theorem changePods_stateOf : (cluster.changePods name change).stateOf other =
      cluster.stateOf other ∨
    name = other ∧
      (cluster.changePods name change).stateOf other = change (cluster.stateOf other) := by
  unfold changePods
  cases hstate : cluster.services[name]? with
  | none => exact .inl rfl
  | some state =>
      rw [stateOf, stateOf]
      dsimp only
      rw [BTreeMap.lookup_insert]
      split
      · next heq =>
          rw [← heq, hstate]
          exact .inr ⟨rfl, rfl⟩
      · exact .inl rfl

theorem changePods_records (hchange : ServiceState.KeepsRecords change) :
    ((cluster.changePods name change).stateOf other).status = (cluster.stateOf other).status ∧
      ((cluster.changePods name change).stateOf other).seen = (cluster.stateOf other).seen ∧
      ((cluster.changePods name change).stateOf other).deployment =
        (cluster.stateOf other).deployment := by
  rcases changePods_stateOf name other with heq | ⟨-, heq⟩
  · rw [heq]
    exact ⟨rfl, rfl, rfl⟩
  · rw [heq]
    exact hchange _

theorem changePods_services (hnone : cluster.services[other]? = none) :
    (cluster.changePods name change).services[other]? = none := by
  unfold changePods
  cases hstate : cluster.services[name]? with
  | none => exact hnone
  | some state =>
      have hne : name ≠ other := by
        rintro rfl
        rw [hstate] at hnone
        cases hnone
      exact (BTreeMap.lookup_insert_of_ne _ _ hne).trans hnone

end Pods

end Cluster

end VllmColdstartOperator
