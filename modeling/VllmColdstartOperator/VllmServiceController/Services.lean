import VllmColdstartOperator.Foundation.Runs
import VllmColdstartOperator.Foundation.Watched
import VllmColdstartOperator.VllmServiceController.Objects

/-!
# All VllmServices of a cluster, one API call at a time

`Services` is the VllmServices the API server stores and the operator's cache
of them, the objects their controller applied, and the reconcile in progress of
each.  The controller never runs two reconciles of one service together, but
the calls of different services mix in any order, and a reconcile works on the
object the cache held when it began.
-/

namespace VllmColdstartOperator

open Foundation Std

structure ServiceKey where
  ns : String
  name : String
  deriving DecidableEq, Repr

namespace ServiceKey

instance : Ord ServiceKey := ⟨compareLex (compareOn ns) (compareOn name)⟩

instance : TransOrd ServiceKey :=
  inferInstanceAs (TransCmp (compareLex (compareOn ns) (compareOn name)))

instance : LawfulEqOrd ServiceKey where
  eq_of_compare := by
    intro left right hequal
    obtain ⟨hns, hname⟩ := compareLex_eq_eq.mp hequal
    cases left
    cases right
    rw [mk.injEq]
    exact ⟨LawfulEqOrd.eq_of_compare hns, LawfulEqOrd.eq_of_compare hname⟩

end ServiceKey

def VllmService.key (svc : VllmService) : Option ServiceKey :=
  svc.metadata.ns.map fun ns => ⟨ns, svc.name⟩

theorem VllmService.key_eq_some {svc : VllmService} {key : ServiceKey} :
    svc.key = some key ↔ svc.metadata.ns = some key.ns ∧ svc.name = key.name := by
  cases key with
  | mk ns name =>
      unfold VllmService.key
      cases svc.metadata.ns with
      | none => simp
      | some found => simp

structure Applied where
  deployment : Option Deployment := none
  service : Option Service := none
  policy : Option NetworkPolicy := none

/-- A reconcile in progress: the object it works on, the ready replicas the
server answered to its first call, and the calls it has made. -/
structure PendingReconcile where
  svc : VllmService
  ready : Option Int32
  made : Nat

namespace PendingReconcile

variable (pending : PendingReconcile)

def calls (environment : VllmServiceController.Environment) : List VllmServiceController.Call :=
  match VllmServiceController.reconcileInner pending.svc environment pending.ready with
  | .ok calls => calls
  | .error _ => []

/-- The apply of the Deployment is answered with its status. -/
def answered (ready : Option Int32) : PendingReconcile :=
  if pending.made = 0 then { pending with ready := ready } else pending

end PendingReconcile

structure Services where
  environment : VllmServiceController.Environment
  watched : Watched ServiceKey VllmService
  applied : ServiceKey → Applied
  pending : ServiceKey → Option PendingReconcile

/-- Services are created, changed and removed by whoever may, the fleet
controller too.  A reconcile begins from the cache, makes its next call, or
fails; the operator restarts.  Others change the applied objects, and those
whose owner is gone are collected. -/
inductive ServicesEvent where
  | put (svc : VllmService)
  | remove (key : ServiceKey)
  | deliver
  | relist
  | begin (key : ServiceKey)
  | call (key : ServiceKey) (ready : Option Int32)
  | fail (key : ServiceKey)
  | restart (environment : VllmServiceController.Environment)
  | disturb (key : ServiceKey) (objects : Applied)
  | collect (key : ServiceKey)

namespace Services

def empty (environment : VllmServiceController.Environment) : Services :=
  ⟨environment, Watched.empty, fun _ => {}, fun _ => none⟩

variable (services : Services)

abbrev stored : BTreeMap ServiceKey VllmService := services.watched.stored

abbrev cache : BTreeMap ServiceKey VllmService := services.watched.cache

def write (key : ServiceKey) (svc : Option VllmService) : Services :=
  { services with watched := services.watched.write ⟨key, svc⟩ }

def setApplied (key : ServiceKey) (objects : Applied) : Services :=
  { services with applied := Function.update services.applied key objects }

def setPending (key : ServiceKey) (pending : Option PendingReconcile) : Services :=
  { services with pending := Function.update services.pending key pending }

/-- The status is a subresource, which a write of the object leaves. -/
def put (svc : VllmService) : Services :=
  match svc.key with
  | none => services
  | some key =>
      services.write key (some { svc with status := (services.stored[key]?).bind (·.status) })

def begin (key : ServiceKey) : Services :=
  match services.pending key, services.cache[key]? with
  | none, some svc =>
      let pending : PendingReconcile := ⟨svc, none, 0⟩
      if pending.calls services.environment = [] then services
      else services.setPending key (some pending)
  | _, _ => services

/-- The status of an object that is gone cannot be written. -/
def accepts (key : ServiceKey) : VllmServiceController.Call → Bool
  | .applyDeployment _ => true
  | .applyService _ => true
  | .applyNetworkPolicy _ => true
  | .patchStatus _ => (services.stored[key]?).isSome

def perform (key : ServiceKey) : VllmServiceController.Call → Services
  | .applyDeployment deployment =>
      services.setApplied key { services.applied key with deployment := some deployment }
  | .applyService service =>
      services.setApplied key { services.applied key with service := some service }
  | .applyNetworkPolicy policy =>
      services.setApplied key { services.applied key with policy := some policy }
  | .patchStatus status =>
      services.write key ((services.stored[key]?).map fun svc =>
        { svc with status := some status })

/-- The call the reconcile of a service makes next, and the name it is made to. -/
def turn (key : ServiceKey) (ready : Option Int32) :
    Option (PendingReconcile × ServiceKey × VllmServiceController.Call) :=
  (services.pending key).bind fun pending =>
    let pending := pending.answered ready
    pending.svc.key.bind fun own =>
      ((pending.calls services.environment)[pending.made]?).map fun call => (pending, own, call)

def call (key : ServiceKey) (ready : Option Int32) : Services :=
  match services.turn key ready with
  | none => services
  | some (pending, own, call) =>
      if services.accepts own call then
        let later := { pending with made := pending.made + 1 }
        (services.perform own call).setPending key
          (if later.made < (later.calls services.environment).length then some later else none)
      else services.setPending key none

/-- An object none of whose owners is stored. -/
def isOrphan (ns : String) (metadata : ObjectMeta) : Bool :=
  !metadata.ownerReferences.isEmpty && metadata.ownerReferences.all fun owner =>
    !((services.stored[(⟨ns, owner.name⟩ : ServiceKey)]?).any fun svc =>
      svc.metadata.uid = owner.uid)

def collect (key : ServiceKey) : Services :=
  let objects := services.applied key
  services.setApplied key {
    deployment := objects.deployment.filter fun object => !services.isOrphan key.ns object.metadata
    service := objects.service.filter fun object => !services.isOrphan key.ns object.metadata
    policy := objects.policy.filter fun object => !services.isOrphan key.ns object.metadata }

def next (event : ServicesEvent) (services : Services) : Services :=
  match event with
  | .put svc => services.put svc
  | .remove key => services.write key none
  | .deliver => { services with watched := services.watched.deliver }
  | .relist => { services with watched := services.watched.relist }
  | .begin key => services.begin key
  | .call key ready => services.call key ready
  | .fail key => services.setPending key none
  | .restart environment =>
      { services with
        environment := environment
        watched := services.watched.restart
        pending := fun _ => none }
  | .disturb key objects => services.setApplied key objects
  | .collect key => services.collect key

/-! ## What the watch sees -/

def statusWrite (key : ServiceKey) (ready : Option Int32) :
    Option (WatchStep ServiceKey VllmService) :=
  match services.turn key ready with
  | some (_, own, .patchStatus status) =>
      (services.stored[own]?).map fun svc => .write ⟨own, some { svc with status := some status }⟩
  | _ => none

def putWrite (svc : VllmService) : Option (WatchStep ServiceKey VllmService) :=
  svc.key.map fun key =>
    .write ⟨key, some { svc with status := (services.stored[key]?).bind (·.status) }⟩

/-- What an event is to the store and its watcher. -/
def watchStep : ServicesEvent → Option (WatchStep ServiceKey VllmService)
  | .put svc => services.putWrite svc
  | .remove key => some (.write ⟨key, none⟩)
  | .deliver => some .deliver
  | .relist => some .relist
  | .begin _ => none
  | .call key ready => services.statusWrite key ready
  | .fail _ => none
  | .restart _ => some .restart
  | .disturb _ _ => none
  | .collect _ => none

variable {services}

theorem begin_cases (key : ServiceKey) :
    services.begin key = services ∨
      ∃ svc, services.pending key = none ∧ services.cache[key]? = some svc ∧
        (⟨svc, none, 0⟩ : PendingReconcile).calls services.environment ≠ [] ∧
        services.begin key = services.setPending key (some ⟨svc, none, 0⟩) := by
  unfold begin
  cases hpending : services.pending key with
  | some pending => exact .inl rfl
  | none =>
      cases hcached : services.cache[key]? with
      | none => exact .inl rfl
      | some svc =>
          dsimp only
          split
          next => exact .inl rfl
          next hcalls => exact .inr ⟨svc, rfl, rfl, hcalls, rfl⟩

@[simp] theorem accepts_patchStatus (key : ServiceKey) (status : VllmServiceStatus) :
    services.accepts key (.patchStatus status) = (services.stored[key]?).isSome := rfl

theorem call_watched (key : ServiceKey) (ready : Option Int32) :
    (services.call key ready).watched = services.watched.next (services.statusWrite key ready) := by
  unfold call statusWrite
  cases services.turn key ready with
  | none => rfl
  | some found =>
      obtain ⟨pending, own, call⟩ := found
      cases call with
      | applyDeployment deployment => rfl
      | applyService service => rfl
      | applyNetworkPolicy policy => rfl
      | patchStatus status =>
          dsimp only
          rw [accepts_patchStatus]
          cases hstored : services.stored[own]? with
          | none => rfl
          | some svc =>
              rw [Option.isSome_some, if_pos rfl, perform, hstored]
              rfl

theorem next_watched (event : ServicesEvent) :
    (next event services).watched = services.watched.next (services.watchStep event) := by
  cases event with
  | put svc =>
      change (services.put svc).watched = services.watched.next (services.putWrite svc)
      unfold put putWrite
      cases svc.key with
      | none => rfl
      | some key => rfl
  | remove key => rfl
  | deliver => rfl
  | relist => rfl
  | begin key =>
      change (services.begin key).watched = services.watched
      rcases begin_cases key with hsame | ⟨svc, -, -, -, hbegun⟩
      · rw [hsame]
      · rw [hbegun]
        rfl
  | call key ready => exact call_watched key ready
  | fail key => rfl
  | restart environment => rfl
  | disturb key objects => rfl
  | collect key => rfl

end Services

def servicesRun (environment : VllmServiceController.Environment)
    (events : Nat → ServicesEvent) : Nat → Services :=
  run Services.next events (Services.empty environment)

end VllmColdstartOperator
