import VllmColdstartOperator.VllmServiceController.Services

/-!
# What an event changes of a service

Everything in `Services` is filed under the name it carries, so a reconcile
writes what has the name of its service only.  `IsDone` says that the effect of
a call is in place.
-/

namespace VllmColdstartOperator

open Foundation Std

namespace VllmServiceController

variable {svc : VllmService}

theorem buildDeployment_meta {ns : String} (hns : svc.metadata.ns = some ns) :
    ∃ deployment, buildDeployment svc = .ok deployment ∧
      deployment.metadata = ownedMeta svc ns := by
  rw [buildDeployment, hns]
  exact ⟨_, rfl, rfl⟩

theorem buildService_meta {ns : String} (hns : svc.metadata.ns = some ns) :
    ∃ service, buildService svc = .ok service ∧ service.metadata = ownedMeta svc ns := by
  rw [buildService, hns]
  exact ⟨_, rfl, rfl⟩

theorem buildNetworkPolicyWith_meta {ns : String} (hns : svc.metadata.ns = some ns)
    (metricsNs : String) (extraNs : List String) :
    ∃ policy, buildNetworkPolicyWith svc metricsNs extraNs = .ok policy ∧
      policy.metadata = ownedMeta svc ns := by
  rw [buildNetworkPolicyWith, hns]
  exact ⟨_, rfl, rfl⟩

/-- The objects a reconcile of a service applies, whatever it is answered. -/
structure Builds (svc : VllmService) (environment : Environment) (deployment : Deployment)
    (service : Service) (policy : NetworkPolicy) : Prop where
  deployment : buildDeployment svc = .ok deployment
  service : buildService svc = .ok service
  policy : buildNetworkPolicyWith svc environment.metricsNs environment.extraNs = .ok policy

end VllmServiceController

namespace PendingReconcile

variable {pending : PendingReconcile} {environment : VllmServiceController.Environment}

def status (pending : PendingReconcile) : VllmServiceStatus :=
  let (phase, message) := phaseFor pending.svc.spec.replicas (pending.ready.getD 0)
  ⟨phase, message⟩

theorem calls_of_builds {deployment : Deployment} {service : Service} {policy : NetworkPolicy}
    (hbuilds : VllmServiceController.Builds pending.svc environment deployment service policy) :
    pending.calls environment = [.applyDeployment deployment, .applyService service] ++
      (if environment.policyEnabled then [.applyNetworkPolicy policy] else []) ++
      [.patchStatus pending.status] := by
  rw [calls, VllmServiceController.reconcileInner, hbuilds.deployment, hbuilds.service,
    hbuilds.policy]
  rfl

theorem mem_calls {deployment : Deployment} {service : Service} {policy : NetworkPolicy}
    (hbuilds : VllmServiceController.Builds pending.svc environment deployment service policy)
    (call : VllmServiceController.Call) :
    call ∈ pending.calls environment ↔
      call = .applyDeployment deployment ∨ call = .applyService service ∨
        (environment.policyEnabled = true ∧ call = .applyNetworkPolicy policy) ∨
        call = .patchStatus pending.status := by
  rw [calls_of_builds hbuilds]
  cases environment.policyEnabled with
  | true => simp
  | false => simp

theorem exists_builds {svc : VllmService} {key : ServiceKey} (hkey : svc.key = some key)
    (environment : VllmServiceController.Environment) :
    ∃ deployment service policy,
      VllmServiceController.Builds svc environment deployment service policy ∧
      deployment.metadata = VllmServiceController.ownedMeta svc key.ns ∧
      service.metadata = VllmServiceController.ownedMeta svc key.ns ∧
      policy.metadata = VllmServiceController.ownedMeta svc key.ns := by
  have hns := (VllmService.key_eq_some.mp hkey).1
  obtain ⟨deployment, hdeployment, hdeploymentMeta⟩ :=
    VllmServiceController.buildDeployment_meta hns
  obtain ⟨service, hservice, hserviceMeta⟩ := VllmServiceController.buildService_meta hns
  obtain ⟨policy, hpolicy, hpolicyMeta⟩ :=
    VllmServiceController.buildNetworkPolicyWith_meta hns environment.metricsNs environment.extraNs
  exact ⟨deployment, service, policy, ⟨hdeployment, hservice, hpolicy⟩, hdeploymentMeta,
    hserviceMeta, hpolicyMeta⟩

theorem calls_cases (pending : PendingReconcile)
    (environment : VllmServiceController.Environment) :
    (∀ ready, ({ pending with ready := ready } : PendingReconcile).calls environment = []) ∨
      ∃ deployment service policy,
        VllmServiceController.Builds pending.svc environment deployment service policy := by
  cases hdeployment : VllmServiceController.buildDeployment pending.svc with
  | error error =>
      left
      intro ready
      rw [calls, VllmServiceController.reconcileInner, hdeployment]
      rfl
  | ok deployment =>
      cases hservice : VllmServiceController.buildService pending.svc with
      | error error =>
          left
          intro ready
          rw [calls, VllmServiceController.reconcileInner, hdeployment, hservice]
          rfl
      | ok service =>
          cases hpolicy : VllmServiceController.buildNetworkPolicyWith pending.svc
            environment.metricsNs environment.extraNs with
          | error error =>
              left
              intro ready
              rw [calls, VllmServiceController.reconcileInner, hdeployment, hservice, hpolicy]
              rfl
          | ok policy =>
              exact .inr ⟨deployment, service, policy, hdeployment, hservice, hpolicy⟩

theorem calls_bounded (environment : VllmServiceController.Environment) :
    (pending.calls environment).length ≤ 4 := by
  rcases pending.calls_cases environment with hnone | ⟨deployment, service, policy, hbuilds⟩
  · have hcalls : pending.calls environment = [] := hnone pending.ready
    rw [hcalls]
    exact Nat.zero_le 4
  · rw [calls_of_builds hbuilds]
    cases environment.policyEnabled with
    | true => simp
    | false => simp

theorem length_calls_answered (ready : Option Int32) :
    ((pending.answered ready).calls environment).length = (pending.calls environment).length := by
  unfold answered
  split
  · rcases pending.calls_cases environment with hnone | ⟨deployment, service, policy, hbuilds⟩
    · have hcalls : pending.calls environment = [] := hnone pending.ready
      rw [hnone ready, hcalls]
    · have hanswered : VllmServiceController.Builds ({ pending with ready := ready } :
          PendingReconcile).svc environment deployment service policy := hbuilds
      rw [calls_of_builds hanswered, calls_of_builds hbuilds]
      simp
  · rfl

@[simp] theorem answered_svc (ready : Option Int32) :
    (pending.answered ready).svc = pending.svc := by
  unfold answered
  split
  · rfl
  · rfl

@[simp] theorem answered_made (ready : Option Int32) :
    (pending.answered ready).made = pending.made := by
  unfold answered
  split
  · rfl
  · rfl

end PendingReconcile

namespace ServicesEvent

def key : ServicesEvent → Option ServiceKey
  | .put svc => svc.key
  | .remove key => some key
  | .deliver => none
  | .relist => none
  | .begin key => some key
  | .call key _ => some key
  | .fail key => some key
  | .restart _ => none
  | .disturb key _ => some key
  | .collect key => some key

theorem ne_of_key {event : ServicesEvent} {key other : ServiceKey} (hkey : event.key = some other)
    (hother : event.key ≠ some key) : key ≠ other := by
  rintro rfl
  exact hother hkey

end ServicesEvent

namespace Services

variable {services : Services} {key : ServiceKey}

/-- Everything is filed under its own name, and a reconcile in progress has a
call left. -/
structure Filed (services : Services) : Prop where
  watched : services.watched.Every fun key svc => svc.key = some key
  pending : ∀ key pending, services.pending key = some pending → pending.svc.key = some key
  unfinished : ∀ key pending, services.pending key = some pending →
    pending.made < (pending.calls services.environment).length

theorem setPending_self (pending : Option PendingReconcile) :
    (services.setPending key pending).pending key = pending := by
  simp [setPending]

theorem setPending_other {other : ServiceKey} (hne : other ≠ key)
    (pending : Option PendingReconcile) :
    (services.setPending key pending).pending other = services.pending other := by
  simp [setPending, hne]

@[simp] theorem perform_pending (call : VllmServiceController.Call) :
    (services.perform key call).pending = services.pending := by
  cases call with
  | applyDeployment deployment => rfl
  | applyService service => rfl
  | applyNetworkPolicy policy => rfl
  | patchStatus status => rfl

@[simp] theorem perform_environment (call : VllmServiceController.Call) :
    (services.perform key call).environment = services.environment := by
  cases call with
  | applyDeployment deployment => rfl
  | applyService service => rfl
  | applyNetworkPolicy policy => rfl
  | patchStatus status => rfl

def later (services : Services) (pending : PendingReconcile) : Option PendingReconcile :=
  if pending.made + 1 < (pending.calls services.environment).length then
    some { pending with made := pending.made + 1 }
  else none

theorem turn_of_none (hnone : services.pending key = none) (ready : Option Int32) :
    services.turn key ready = none := by
  rw [turn, hnone]
  rfl

theorem begin_pending {other : ServiceKey} {pending : PendingReconcile}
    (hpending : (services.begin key).pending other = some pending) :
    services.pending other = some pending ∨
      (other = key ∧ services.pending key = none ∧ services.cache[key]? = some pending.svc ∧
        pending.made = 0 ∧ pending.calls services.environment ≠ []) := by
  rcases @begin_cases services key with hsame | ⟨svc, hnone, hcached, hcalls, hbegun⟩
  · rw [hsame] at hpending
    exact .inl hpending
  · rw [hbegun] at hpending
    by_cases hother : other = key
    · subst hother
      rw [setPending_self] at hpending
      obtain rfl := Option.some.inj hpending
      exact .inr ⟨rfl, hnone, hcached, rfl, hcalls⟩
    · rw [setPending_other hother] at hpending
      exact .inl hpending

theorem exists_put (svc : VllmService) :
    ∃ watched, services.put svc = { services with watched := watched } := by
  unfold put
  cases svc.key with
  | none => exact ⟨services.watched, rfl⟩
  | some key => exact ⟨_, rfl⟩

theorem put_pending (svc : VllmService) : (services.put svc).pending = services.pending := by
  obtain ⟨watched, hput⟩ := @exists_put services svc
  rw [hput]

theorem put_applied (svc : VllmService) : (services.put svc).applied = services.applied := by
  obtain ⟨watched, hput⟩ := @exists_put services svc
  rw [hput]

theorem put_environment (svc : VllmService) :
    (services.put svc).environment = services.environment := by
  obtain ⟨watched, hput⟩ := @exists_put services svc
  rw [hput]

theorem begin_applied (key : ServiceKey) : (services.begin key).applied = services.applied := by
  rcases @begin_cases services key with hsame | ⟨svc, -, -, -, hbegun⟩
  · rw [hsame]
  · rw [hbegun]
    rfl

theorem begin_environment (key : ServiceKey) :
    (services.begin key).environment = services.environment := by
  rcases @begin_cases services key with hsame | ⟨svc, -, -, -, hbegun⟩
  · rw [hsame]
  · rw [hbegun]
    rfl

namespace Filed

variable (hfiled : services.Filed)

include hfiled

theorem turn_of_pending {pending : PendingReconcile}
    (hpending : services.pending key = some pending) (ready : Option Int32) :
    ∃ call, ((pending.answered ready).calls services.environment)[pending.made]? = some call ∧
      services.turn key ready = some (pending.answered ready, key, call) := by
  have hkey := hfiled.pending key pending hpending
  have hbound := hfiled.unfinished key pending hpending
  rw [← @PendingReconcile.length_calls_answered pending services.environment ready] at hbound
  have hcall := List.getElem?_eq_getElem hbound
  refine ⟨_, hcall, ?_⟩
  rw [turn, hpending, Option.bind_some]
  dsimp only
  rw [PendingReconcile.answered_svc, hkey, Option.bind_some, PendingReconcile.answered_made, hcall]
  rfl

/-- What a call does: the reconcile that is in progress makes its next one, and
ends with the last or when it is refused. -/
theorem call_cases (ready : Option Int32) :
    (services.pending key = none ∧ services.call key ready = services) ∨
    ∃ pending call, services.pending key = some pending ∧
      ((pending.answered ready).calls services.environment)[pending.made]? = some call ∧
      ((services.accepts key call = true ∧ services.call key ready =
          (services.perform key call).setPending key
            (services.later (pending.answered ready))) ∨
        (services.accepts key call = false ∧
          services.call key ready = services.setPending key none)) := by
  cases hpending : services.pending key with
  | none =>
      refine .inl ⟨rfl, ?_⟩
      rw [Services.call, turn_of_none hpending]
  | some pending =>
      obtain ⟨call, hcall, hturn⟩ := hfiled.turn_of_pending hpending ready
      refine .inr ⟨pending, call, rfl, hcall, ?_⟩
      rw [Services.call, hturn]
      cases haccepts : services.accepts key call with
      | true =>
          refine .inl ⟨rfl, ?_⟩
          dsimp only
          rw [haccepts, if_pos rfl]
          rfl
      | false =>
          refine .inr ⟨rfl, ?_⟩
          dsimp only
          rw [haccepts, if_neg Bool.false_ne_true]

theorem statusWrite_eq {ready : Option Int32} {step : WatchStep ServiceKey VllmService}
    (hwrite : services.statusWrite key ready = some step) :
    ∃ pending status svc, services.pending key = some pending ∧
      ((pending.answered ready).calls services.environment)[pending.made]? =
        some (.patchStatus status) ∧
      services.stored[key]? = some svc ∧
      step = .write ⟨key, some { svc with status := some status }⟩ := by
  cases hpending : services.pending key with
  | none =>
      rw [statusWrite, turn_of_none hpending] at hwrite
      cases hwrite
  | some pending =>
      obtain ⟨call, hcall, hturn⟩ := hfiled.turn_of_pending hpending ready
      rw [statusWrite, hturn] at hwrite
      cases call with
      | applyDeployment deployment => cases hwrite
      | applyService service => cases hwrite
      | applyNetworkPolicy policy => cases hwrite
      | patchStatus status =>
          dsimp only at hwrite
          obtain ⟨svc, hstored, hstep⟩ := Option.map_eq_some_iff.mp hwrite
          exact ⟨pending, status, svc, rfl, hcall, hstored, hstep.symm⟩

theorem watchStep_restart {event : ServicesEvent}
    (hrestart : services.watchStep event = some .restart) :
    ∃ environment, event = .restart environment := by
  cases event with
  | put given =>
      obtain ⟨own, -, hwrite⟩ := Option.map_eq_some_iff.mp hrestart
      cases hwrite
  | remove other => cases hrestart
  | deliver => cases hrestart
  | relist => cases hrestart
  | begin other => cases hrestart
  | call other ready =>
      obtain ⟨-, status, found, -, -, -, hwrite⟩ := hfiled.statusWrite_eq hrestart
      cases hwrite
  | fail other => cases hrestart
  | restart environment => exact ⟨environment, rfl⟩
  | disturb other objects => cases hrestart
  | collect other => cases hrestart

theorem watchStep_write {event : ServicesEvent} {change : Change ServiceKey VllmService}
    (hwrite : services.watchStep event = some (.write change)) {svc : VllmService}
    (hvalue : change.value = some svc) : svc.key = some change.key := by
  cases event with
  | put given =>
      obtain ⟨own, hown, hchange⟩ := Option.map_eq_some_iff.mp hwrite
      obtain rfl := WatchStep.write.inj hchange
      obtain rfl := Option.some.inj hvalue
      exact hown
  | remove other =>
      obtain rfl := WatchStep.write.inj (Option.some.inj hwrite)
      cases hvalue
  | deliver => cases hwrite
  | relist => cases hwrite
  | begin other => cases hwrite
  | call other ready =>
      obtain ⟨-, status, found, -, -, hstored, hchange⟩ := hfiled.statusWrite_eq hwrite
      obtain rfl := WatchStep.write.inj hchange
      obtain rfl := Option.some.inj hvalue
      exact hfiled.watched.stored other found hstored
  | fail other => cases hwrite
  | restart environment => cases hwrite
  | disturb other objects => cases hwrite
  | collect other => cases hwrite

theorem call_pending {ready : Option Int32} {other : ServiceKey} {after : PendingReconcile}
    (hafter : (services.call key ready).pending other = some after) :
    services.pending other = some after ∨
      ∃ pending, other = key ∧ services.pending key = some pending ∧
        after = { pending.answered ready with made := pending.made + 1 } ∧
        after.made < (after.calls services.environment).length := by
  rcases hfiled.call_cases ready with ⟨-, hsame⟩ | ⟨pending, call, hpending, -, hcases⟩
  · exact .inl (hsame ▸ hafter)
  · by_cases hother : other = key
    · subst hother
      rcases hcases with ⟨-, hcalled⟩ | ⟨-, hcalled⟩
      · rw [hcalled, setPending_self, later] at hafter
        split at hafter
        next hbound =>
          obtain rfl := Option.some.inj hafter
          rw [PendingReconcile.answered_made] at hbound ⊢
          exact .inr ⟨pending, rfl, hpending, rfl, hbound⟩
        next => cases hafter
      · rw [hcalled, setPending_self] at hafter
        cases hafter
    · left
      rcases hcases with ⟨-, hcalled⟩ | ⟨-, hcalled⟩
      · rwa [hcalled, setPending_other hother, perform_pending] at hafter
      · rwa [hcalled, setPending_other hother] at hafter

theorem call_environment (ready : Option Int32) :
    (services.call key ready).environment = services.environment := by
  rcases hfiled.call_cases ready with ⟨-, hsame⟩ | ⟨pending, call, -, -, ⟨-, hcalled⟩ |
    ⟨-, hcalled⟩⟩
  · rw [hsame]
  · rw [hcalled]
    exact perform_environment call
  · rw [hcalled]
    rfl

theorem next_environment {event : ServicesEvent}
    (hrestart : ∀ environment, event ≠ .restart environment) :
    (next event services).environment = services.environment := by
  cases event with
  | put svc => exact put_environment svc
  | remove key => rfl
  | deliver => rfl
  | relist => rfl
  | begin key => exact begin_environment key
  | call key ready => exact hfiled.call_environment ready
  | fail key => rfl
  | restart environment => exact absurd rfl (hrestart environment)
  | disturb key objects => rfl
  | collect key => rfl

/-- A reconcile in progress was in progress before, has just begun on what is
cached, or has made one more call. -/
theorem next_pending {event : ServicesEvent} {after : PendingReconcile}
    (hafter : (next event services).pending key = some after) :
    (∀ environment, event ≠ .restart environment) ∧
    (services.pending key = some after ∨
      (event = .begin key ∧ services.pending key = none ∧
        services.cache[key]? = some after.svc ∧ after.made = 0 ∧
        after.calls services.environment ≠ []) ∨
      ∃ ready pending, event = .call key ready ∧ services.pending key = some pending ∧
        after = { pending.answered ready with made := pending.made + 1 } ∧
        after.made < (after.calls services.environment).length) := by
  cases event with
  | put svc =>
      refine ⟨fun _ => by simp, .inl ?_⟩
      rwa [next, put_pending] at hafter
  | remove other => exact ⟨fun _ => by simp, .inl hafter⟩
  | deliver => exact ⟨fun _ => by simp, .inl hafter⟩
  | relist => exact ⟨fun _ => by simp, .inl hafter⟩
  | begin other =>
      refine ⟨fun _ => by simp, ?_⟩
      rcases begin_pending hafter with hsame | ⟨rfl, hnone, hcached, hmade, hcalls⟩
      · exact .inl hsame
      · exact .inr (.inl ⟨rfl, hnone, hcached, hmade, hcalls⟩)
  | call other ready =>
      refine ⟨fun _ => by simp, ?_⟩
      rcases hfiled.call_pending hafter with hsame | ⟨pending, rfl, hpending, heq, hbound⟩
      · exact .inl hsame
      · exact .inr (.inr ⟨ready, pending, rfl, hpending, heq, hbound⟩)
  | fail other =>
      refine ⟨fun _ => by simp, .inl ?_⟩
      by_cases hother : key = other
      · subst hother
        rw [next, setPending_self] at hafter
        cases hafter
      · rwa [next, setPending_other hother] at hafter
  | restart environment => cases hafter
  | disturb other objects => exact ⟨fun _ => by simp, .inl hafter⟩
  | collect other => exact ⟨fun _ => by simp, .inl hafter⟩

theorem next (event : ServicesEvent) : (next event services).Filed where
  watched := by
    rw [next_watched]
    exact hfiled.watched.next fun change hwrite svc hvalue =>
      hfiled.watchStep_write hwrite hvalue
  pending := by
    intro key after hafter
    obtain ⟨-, hsame | ⟨-, -, hcached, -, -⟩ | ⟨ready, pending, -, hpending, rfl, -⟩⟩ :=
      hfiled.next_pending hafter
    · exact hfiled.pending key after hsame
    · exact hfiled.watched.cached key after.svc hcached
    · rw [PendingReconcile.answered_svc]
      exact hfiled.pending key pending hpending
  unfinished := by
    intro key after hafter
    obtain ⟨hrestart, hcases⟩ := hfiled.next_pending hafter
    rcases hcases with hsame | ⟨-, -, -, hmade, hcalls⟩ | ⟨ready, pending, -, -, -, hbound⟩
    · rw [hfiled.next_environment hrestart]
      exact hfiled.unfinished key after hsame
    · rw [hfiled.next_environment hrestart, hmade]
      exact List.length_pos_of_ne_nil hcalls
    · rw [hfiled.next_environment hrestart]
      exact hbound

end Filed

theorem empty_filed (environment : VllmServiceController.Environment) :
    (empty environment).Filed where
  watched := Watched.Every.empty _
  pending := fun _ _ hpending => by cases hpending
  unfinished := fun _ _ hpending => by cases hpending

/-! ## What is in place -/

/-- The effect of a call, made to the service of that name, is in place. -/
def IsDone (services : Services) (key : ServiceKey) : VllmServiceController.Call → Prop
  | .applyDeployment deployment => (services.applied key).deployment = some deployment
  | .applyService service => (services.applied key).service = some service
  | .applyNetworkPolicy policy => (services.applied key).policy = some policy
  | .patchStatus status => ∃ svc, services.stored[key]? = some svc ∧ svc.status = some status

theorem IsDone.congr {after : Services} {call : VllmServiceController.Call}
    (hdone : services.IsDone key call) (happlied : after.applied key = services.applied key)
    (hstored : after.stored[key]? = services.stored[key]?) : after.IsDone key call := by
  cases call with
  | applyDeployment deployment =>
      rw [IsDone, happlied]
      exact hdone
  | applyService service =>
      rw [IsDone, happlied]
      exact hdone
  | applyNetworkPolicy policy =>
      rw [IsDone, happlied]
      exact hdone
  | patchStatus status =>
      rw [IsDone, hstored]
      exact hdone

theorem isDone_perform {call : VllmServiceController.Call}
    (haccepts : services.accepts key call = true) :
    (services.perform key call).IsDone key call := by
  cases call with
  | applyDeployment deployment => simp [IsDone, perform, setApplied]
  | applyService service => simp [IsDone, perform, setApplied]
  | applyNetworkPolicy policy => simp [IsDone, perform, setApplied]
  | patchStatus status =>
      rw [accepts_patchStatus] at haccepts
      obtain ⟨svc, hstored⟩ := Option.isSome_iff_exists.mp haccepts
      refine ⟨{ svc with status := some status }, ?_, rfl⟩
      rw [perform, hstored]
      exact services.watched.write_stored_self rfl

/-- Two calls that are the same one where they write the same thing. -/
def Agree : VllmServiceController.Call → VllmServiceController.Call → Prop
  | .applyDeployment one, .applyDeployment other => one = other
  | .applyService one, .applyService other => one = other
  | .applyNetworkPolicy one, .applyNetworkPolicy other => one = other
  | .patchStatus one, .patchStatus other => one = other
  | _, _ => True

theorem IsDone.perform {call other : VllmServiceController.Call} (hdone : services.IsDone key call)
    (hagree : Agree call other) (haccepts : services.accepts key other = true) :
    (services.perform key other).IsDone key call := by
  cases call with
  | applyDeployment deployment =>
      cases other with
      | applyDeployment given =>
          obtain rfl : deployment = given := hagree
          exact isDone_perform haccepts
      | applyService service => simpa [IsDone, Services.perform, setApplied] using hdone
      | applyNetworkPolicy policy => simpa [IsDone, Services.perform, setApplied] using hdone
      | patchStatus status => exact hdone
  | applyService service =>
      cases other with
      | applyDeployment deployment => simpa [IsDone, Services.perform, setApplied] using hdone
      | applyService given =>
          obtain rfl : service = given := hagree
          exact isDone_perform haccepts
      | applyNetworkPolicy policy => simpa [IsDone, Services.perform, setApplied] using hdone
      | patchStatus status => exact hdone
  | applyNetworkPolicy policy =>
      cases other with
      | applyDeployment deployment => simpa [IsDone, Services.perform, setApplied] using hdone
      | applyService service => simpa [IsDone, Services.perform, setApplied] using hdone
      | applyNetworkPolicy given =>
          obtain rfl : policy = given := hagree
          exact isDone_perform haccepts
      | patchStatus status => exact hdone
  | patchStatus status =>
      cases other with
      | applyDeployment deployment => exact hdone
      | applyService service => exact hdone
      | applyNetworkPolicy policy => exact hdone
      | patchStatus given =>
          obtain rfl : status = given := hagree
          exact isDone_perform haccepts

/-- The calls of one reconcile do not undo each other. -/
theorem agree_of_mem {pending : PendingReconcile}
    {environment : VllmServiceController.Environment} {call other : VllmServiceController.Call}
    (hpending : pending.svc.key = some key) (hcall : call ∈ pending.calls environment)
    (hother : other ∈ pending.calls environment) : Agree call other := by
  obtain ⟨deployment, service, policy, hbuilds, -⟩ :=
    PendingReconcile.exists_builds hpending environment
  rcases (PendingReconcile.mem_calls hbuilds call).mp hcall with rfl | rfl | ⟨-, rfl⟩ | rfl
  · rcases (PendingReconcile.mem_calls hbuilds other).mp hother with rfl | rfl | ⟨-, rfl⟩ | rfl
      <;> trivial
  · rcases (PendingReconcile.mem_calls hbuilds other).mp hother with rfl | rfl | ⟨-, rfl⟩ | rfl
      <;> trivial
  · rcases (PendingReconcile.mem_calls hbuilds other).mp hother with rfl | rfl | ⟨-, rfl⟩ | rfl
      <;> trivial
  · rcases (PendingReconcile.mem_calls hbuilds other).mp hother with rfl | rfl | ⟨-, rfl⟩ | rfl
      <;> trivial

/-! ## The events of other services -/

theorem watchStep_key (hfiled : services.Filed) {event : ServicesEvent}
    {change : Change ServiceKey VllmService}
    (hwrite : services.watchStep event = some (.write change)) : event.key = some change.key := by
  cases event with
  | put given =>
      obtain ⟨own, hown, hchange⟩ := Option.map_eq_some_iff.mp hwrite
      obtain rfl := WatchStep.write.inj hchange
      exact hown
  | remove other =>
      obtain rfl := WatchStep.write.inj (Option.some.inj hwrite)
      rfl
  | deliver => cases hwrite
  | relist => cases hwrite
  | begin other => cases hwrite
  | call other ready =>
      obtain ⟨-, status, found, -, -, -, hchange⟩ := hfiled.statusWrite_eq hwrite
      obtain rfl := WatchStep.write.inj hchange
      rfl
  | fail other => cases hwrite
  | restart environment => cases hwrite
  | disturb other objects => cases hwrite
  | collect other => cases hwrite

namespace Filed

variable (hfiled : services.Filed) {event : ServicesEvent}

include hfiled

theorem stored_other (hother : event.key ≠ some key) :
    (Services.next event services).stored[key]? = services.stored[key]? := by
  rw [stored, next_watched]
  refine services.watched.next_stored_of_ne fun change hwrite heq => hother ?_
  rw [← heq]
  exact watchStep_key hfiled hwrite

theorem call_applied_other {other : ServiceKey} (hother : other ≠ key) (ready : Option Int32) :
    (services.call other ready).applied key = services.applied key := by
  rcases hfiled.call_cases ready with ⟨-, hsame⟩ | ⟨pending, call, -, -, ⟨-, hcalled⟩ |
    ⟨-, hcalled⟩⟩
  · rw [hsame]
  · rw [hcalled]
    cases call with
    | applyDeployment deployment =>
        simp [setPending, Services.perform, setApplied, hother.symm]
    | applyService service => simp [setPending, Services.perform, setApplied, hother.symm]
    | applyNetworkPolicy policy =>
        simp [setPending, Services.perform, setApplied, hother.symm]
    | patchStatus status => rfl
  · rw [hcalled]
    rfl

theorem applied_other (hother : event.key ≠ some key) :
    (Services.next event services).applied key = services.applied key := by
  cases event with
  | put svc => exact congrFun (put_applied svc) key
  | remove other => rfl
  | deliver => rfl
  | relist => rfl
  | begin other => exact congrFun (begin_applied other) key
  | call other ready =>
      exact hfiled.call_applied_other (ServicesEvent.ne_of_key rfl hother).symm ready
  | fail other => rfl
  | restart environment => rfl
  | disturb other objects =>
      have hne : key ≠ other := ServicesEvent.ne_of_key rfl hother
      simp [Services.next, setApplied, hne]
  | collect other =>
      have hne : key ≠ other := ServicesEvent.ne_of_key rfl hother
      simp [Services.next, collect, setApplied, hne]

theorem pending_other (hother : event.key ≠ some key)
    (hrestart : ∀ environment, event ≠ .restart environment) :
    (Services.next event services).pending key = services.pending key := by
  cases event with
  | put svc => exact congrFun (put_pending svc) key
  | remove other => rfl
  | deliver => rfl
  | relist => rfl
  | begin other =>
      have hne : key ≠ other := ServicesEvent.ne_of_key rfl hother
      rcases @begin_cases services other with hsame | ⟨svc, -, -, -, hbegun⟩
      · exact congrArg (fun after : Services => after.pending key) hsame
      · rw [Services.next, hbegun, setPending_other hne]
  | call other ready =>
      have hne : key ≠ other := ServicesEvent.ne_of_key rfl hother
      rcases @Filed.call_cases services other hfiled ready with ⟨-, hsame⟩ |
        ⟨pending, call, -, -, ⟨-, hcalled⟩ | ⟨-, hcalled⟩⟩
      · exact congrArg (fun after : Services => after.pending key) hsame
      · rw [Services.next, hcalled, setPending_other hne, perform_pending]
      · rw [Services.next, hcalled, setPending_other hne]
  | fail other =>
      have hne : key ≠ other := ServicesEvent.ne_of_key rfl hother
      rw [Services.next, setPending_other hne]
  | restart environment => exact absurd rfl (hrestart environment)
  | disturb other objects => rfl
  | collect other => rfl

end Filed
end Services

end VllmColdstartOperator
