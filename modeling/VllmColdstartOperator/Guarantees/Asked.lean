import VllmColdstartOperator.Guarantees.Shown

/-!
# What is in place was asked for

Nothing but a reconcile of the service makes what its controller writes, and it
does so from an object the service was.  So a service that is removed leaves
nothing: a reconcile under way may still make its objects again, but they are
collected with their owner gone.
-/

namespace VllmColdstartOperator

open Foundation Std Filter

def VllmServiceController.Call.object : VllmServiceController.Call → Option ObjectMeta
  | .applyDeployment deployment => some deployment.metadata
  | .applyService service => some service.metadata
  | .applyNetworkPolicy policy => some policy.metadata
  | .patchStatus _ => none

namespace Services

variable {services : Services} {key : ServiceKey}

theorem isDone_of_perform {call other : VllmServiceController.Call}
    (hdone : (services.perform key other).IsDone key call) :
    services.IsDone key call ∨ call = other := by
  cases call with
  | applyDeployment deployment =>
      cases other with
      | applyDeployment given =>
          have hsame : given = deployment := by simpa [IsDone, perform, setApplied] using hdone
          exact .inr (congrArg VllmServiceController.Call.applyDeployment hsame.symm)
      | applyService service => exact .inl (by simpa [IsDone, perform, setApplied] using hdone)
      | applyNetworkPolicy policy =>
          exact .inl (by simpa [IsDone, perform, setApplied] using hdone)
      | patchStatus status => exact .inl hdone
  | applyService service =>
      cases other with
      | applyDeployment deployment =>
          exact .inl (by simpa [IsDone, perform, setApplied] using hdone)
      | applyService given =>
          have hsame : given = service := by simpa [IsDone, perform, setApplied] using hdone
          exact .inr (congrArg VllmServiceController.Call.applyService hsame.symm)
      | applyNetworkPolicy policy =>
          exact .inl (by simpa [IsDone, perform, setApplied] using hdone)
      | patchStatus status => exact .inl hdone
  | applyNetworkPolicy policy =>
      cases other with
      | applyDeployment deployment =>
          exact .inl (by simpa [IsDone, perform, setApplied] using hdone)
      | applyService service => exact .inl (by simpa [IsDone, perform, setApplied] using hdone)
      | applyNetworkPolicy given =>
          have hsame : given = policy := by simpa [IsDone, perform, setApplied] using hdone
          exact .inr (congrArg VllmServiceController.Call.applyNetworkPolicy hsame.symm)
      | patchStatus status => exact .inl hdone
  | patchStatus status =>
      cases other with
      | applyDeployment deployment => exact .inl hdone
      | applyService service => exact .inl hdone
      | applyNetworkPolicy policy => exact .inl hdone
      | patchStatus given =>
          obtain ⟨svc, hafter, hstatus⟩ := hdone
          have hwritten : (services.perform key (.patchStatus given)).stored[key]? =
              (services.stored[key]?).map fun svc => { svc with status := some given } :=
            services.watched.write_stored_self rfl
          rw [hwritten] at hafter
          obtain ⟨found, -, rfl⟩ := Option.map_eq_some_iff.mp hafter
          obtain rfl := Option.some.inj hstatus
          exact .inr rfl

theorem isDone_of_put {given : VllmService} (hkey : given.key = some key)
    {call : VllmServiceController.Call} (hdone : (services.put given).IsDone key call) :
    services.IsDone key call := by
  cases call with
  | applyDeployment deployment =>
      rw [IsDone, put_applied] at hdone
      exact hdone
  | applyService service =>
      rw [IsDone, put_applied] at hdone
      exact hdone
  | applyNetworkPolicy policy =>
      rw [IsDone, put_applied] at hdone
      exact hdone
  | patchStatus status =>
      obtain ⟨svc, hafter, hstatus⟩ := hdone
      have hwritten : (services.put given).stored[key]? =
          some { given with status := (services.stored[key]?).bind (·.status) } := by
        rw [Services.put, hkey]
        exact services.watched.write_stored_self rfl
      rw [hwritten] at hafter
      obtain rfl := Option.some.inj hafter
      exact Option.bind_eq_some_iff.mp hstatus

theorem isDone_of_collect {call : VllmServiceController.Call}
    (hdone : (services.collect key).IsDone key call) : services.IsDone key call := by
  cases call with
  | applyDeployment deployment =>
      simp only [IsDone, collect, setApplied, Function.update_self] at hdone
      exact (Option.filter_eq_some_iff.mp hdone).1
  | applyService service =>
      simp only [IsDone, collect, setApplied, Function.update_self] at hdone
      exact (Option.filter_eq_some_iff.mp hdone).1
  | applyNetworkPolicy policy =>
      simp only [IsDone, collect, setApplied, Function.update_self] at hdone
      exact (Option.filter_eq_some_iff.mp hdone).1
  | patchStatus status => exact hdone

theorem Filed.isDone_of_next (hfiled : services.Filed) {event : ServicesEvent}
    (hquiet : ∀ objects, event ≠ .disturb key objects) {call : VllmServiceController.Call}
    (hdone : (Services.next event services).IsDone key call) :
    services.IsDone key call ∨
      ∃ answer pending, event = .call key answer ∧ services.pending key = some pending ∧
        call ∈ (pending.answered answer).calls services.environment := by
  by_cases hother : event.key = some key
  · cases event with
    | put given => exact .inl (isDone_of_put hother hdone)
    | remove own =>
        obtain rfl := Option.some.inj hother
        left
        cases call with
        | applyDeployment deployment => exact hdone
        | applyService service => exact hdone
        | applyNetworkPolicy policy => exact hdone
        | patchStatus status =>
            obtain ⟨svc, hafter, -⟩ := hdone
            have hnone : (Services.next (.remove own) services).stored[own]? = none :=
              services.watched.write_stored_self rfl
            rw [hnone] at hafter
            cases hafter
    | deliver => cases hother
    | relist => cases hother
    | begin own =>
        refine .inl (hdone.congr (congrFun (begin_applied own) key).symm ?_)
        rw [stored, stored, next_watched]
        rfl
    | call own answer =>
        obtain rfl := Option.some.inj hother
        change (services.call own answer).IsDone own call at hdone
        rcases hfiled.call_cases answer with ⟨-, hsame⟩ | ⟨pending, made, hpending, hmade,
          ⟨-, hcalled⟩ | ⟨-, hcalled⟩⟩
        · rw [hsame] at hdone
          exact .inl hdone
        · rw [hcalled] at hdone
          rcases isDone_of_perform (hdone.congr rfl rfl) with hbefore | rfl
          · exact .inl hbefore
          · exact .inr ⟨answer, pending, rfl, hpending, List.mem_of_getElem? hmade⟩
        · rw [hcalled] at hdone
          exact .inl (hdone.congr rfl rfl)
    | fail own => exact .inl (hdone.congr rfl rfl)
    | restart environment => cases hother
    | disturb own objects =>
        obtain rfl := Option.some.inj hother
        exact absurd rfl (hquiet objects)
    | collect own =>
        obtain rfl := Option.some.inj hother
        exact .inl (isDone_of_collect hdone)
  · exact .inl (hdone.congr (hfiled.applied_other hother).symm (hfiled.stored_other hother).symm)

end Services

section Run

variable {environment : VllmServiceController.Environment} {events : Nat → ServicesEvent}
  {key : ServiceKey}

def WasStored (environment : VllmServiceController.Environment) (events : Nat → ServicesEvent)
    (key : ServiceKey) (time : Nat) (svc : VllmService) : Prop :=
  ∃ earlier ≤ time, (servicesRun environment events earlier).stored[key]? = some svc

theorem WasStored.succ {time : Nat} {svc : VllmService}
    (hwas : WasStored environment events key time svc) :
    WasStored environment events key (time + 1) svc := by
  obtain ⟨earlier, hle, hstored⟩ := hwas
  exact ⟨earlier, Nat.le_succ_of_le hle, hstored⟩

theorem pending_was_stored (time : Nat) {pending : PendingReconcile}
    (hpending : (servicesRun environment events time).pending key = some pending) :
    WasStored environment events key time pending.svc := by
  induction time generalizing pending with
  | zero => cases hpending
  | succ time ih =>
      rw [servicesRun_succ] at hpending
      rcases ((servicesRun_filed time).next_pending hpending).2 with hsame | ⟨-, -, hcached, -, -⟩ |
        ⟨answer, before, -, hbefore, rfl, -⟩
      · exact (ih hsame).succ
      · obtain ⟨earlier, hle, hstored⟩ := cached_was_stored environment events time key
        exact ⟨earlier, Nat.le_succ_of_le hle, hstored.trans hcached⟩
      · rw [PendingReconcile.answered_svc]
        exact (ih hbefore).succ

/-- What is done is a call of a reconcile of an object the service was. -/
theorem done_was_asked_for (hquiet : ∀ time objects, events time ≠ .disturb key objects)
    (time : Nat) {call : VllmServiceController.Call}
    (hdone : (servicesRun environment events time).IsDone key call) :
    ∃ later ≤ time, ∃ earlier ≤ later, ∃ svc ready,
      (servicesRun environment events earlier).stored[key]? = some svc ∧
      call ∈ (⟨svc, ready, 0⟩ : PendingReconcile).calls
        (servicesRun environment events later).environment := by
  induction time with
  | zero =>
      cases call with
      | applyDeployment deployment => cases hdone
      | applyService service => cases hdone
      | applyNetworkPolicy policy => cases hdone
      | patchStatus status =>
          obtain ⟨svc, hstored, -⟩ := hdone
          exact ((Watched.Every.empty fun _ _ => False).stored key svc hstored).elim
  | succ time ih =>
      rw [servicesRun_succ] at hdone
      rcases (servicesRun_filed time).isDone_of_next (hquiet time) hdone with hbefore |
        ⟨answer, pending, -, hpending, hcall⟩
      · obtain ⟨later, hlater, hasked⟩ := ih hbefore
        exact ⟨later, Nat.le_succ_of_le hlater, hasked⟩
      · obtain ⟨earlier, hle, hstored⟩ := pending_was_stored time hpending
        refine ⟨time, Nat.le_succ time, earlier, hle, pending.svc, (pending.answered answer).ready,
          hstored, ?_⟩
        rwa [PendingReconcile.calls, PendingReconcile.answered_svc] at hcall

/-! ## A service that is removed -/

def IsOwned (key : ServiceKey) (metadata : ObjectMeta) : Prop :=
  ∃ svc : VllmService, svc.name = key.name ∧
    metadata = VllmServiceController.ownedMeta svc key.ns

/-- No object in place under the name is one of the service. -/
def OwnsNothing (services : Services) (key : ServiceKey) : Prop :=
  ∀ call metadata, services.IsDone key call → VllmServiceController.Call.object call =
    some metadata → ¬ IsOwned key metadata

theorem isOrphan_of_removed {services : Services} {metadata : ObjectMeta}
    (hnone : services.stored[key]? = none) (howned : IsOwned key metadata) :
    services.isOrphan key.ns metadata = true := by
  obtain ⟨svc, hname, rfl⟩ := howned
  have howner : services.stored[(⟨key.ns, svc.name⟩ : ServiceKey)]? = none := by
    rw [hname]
    exact hnone
  rw [Services.isOrphan, VllmServiceController.ownedMeta]
  simp [howner]

/-- With their owner gone its objects are collected. -/
theorem ownsNothing_collect {services : Services} (hnone : services.stored[key]? = none) :
    OwnsNothing (services.collect key) key := by
  have hkept : ∀ {metadata : ObjectMeta},
      (!services.isOrphan key.ns metadata) = true → ¬ IsOwned key metadata := by
    intro metadata hkept howned
    rw [isOrphan_of_removed hnone howned] at hkept
    cases hkept
  intro call metadata hdone hobject
  cases call with
  | applyDeployment deployment =>
      simp only [Services.IsDone, Services.collect, Services.setApplied,
        Function.update_self] at hdone
      obtain rfl := Option.some.inj hobject
      exact hkept (Option.filter_eq_some_iff.mp hdone).2
  | applyService service =>
      simp only [Services.IsDone, Services.collect, Services.setApplied,
        Function.update_self] at hdone
      obtain rfl := Option.some.inj hobject
      exact hkept (Option.filter_eq_some_iff.mp hdone).2
  | applyNetworkPolicy policy =>
      simp only [Services.IsDone, Services.collect, Services.setApplied,
        Function.update_self] at hdone
      obtain rfl := Option.some.inj hobject
      exact hkept (Option.filter_eq_some_iff.mp hdone).2
  | patchStatus status => cases hobject

theorem isOwned_of_mem_calls {svc : VllmService} {ready : Option Int32}
    {environment : VllmServiceController.Environment} (hkey : svc.key = some key)
    {call : VllmServiceController.Call}
    (hcall : call ∈ (⟨svc, ready, 0⟩ : PendingReconcile).calls environment)
    {metadata : ObjectMeta} (hobject : call.object = some metadata) : IsOwned key metadata := by
  obtain ⟨deployment, service, policy, hbuilds, hdeployment, hservice, hpolicy⟩ :=
    PendingReconcile.exists_builds hkey environment
  have hname := (VllmService.key_eq_some.mp hkey).2
  have hcase := @PendingReconcile.mem_calls ⟨svc, ready, 0⟩ environment deployment service policy
    hbuilds call
  rcases hcase.mp hcall with rfl | rfl | ⟨-, rfl⟩ | rfl
  · obtain rfl := Option.some.inj hobject
    exact ⟨svc, hname, hdeployment⟩
  · obtain rfl := Option.some.inj hobject
    exact ⟨svc, hname, hservice⟩
  · obtain rfl := Option.some.inj hobject
    exact ⟨svc, hname, hpolicy⟩
  · cases hobject

theorem nothing_applied_of_ownsNothing
    (hquiet : ∀ time objects, events time ≠ .disturb key objects) {time : Nat}
    (hnothing : OwnsNothing (servicesRun environment events time) key) :
    (servicesRun environment events time).applied key = {} := by
  have hundone : ∀ call metadata, VllmServiceController.Call.object call = some metadata →
      ¬ (servicesRun environment events time).IsDone key call := by
    intro call metadata hobject hdone
    obtain ⟨later, -, earlier, -, svc, ready, hstored, hcall⟩ :=
      done_was_asked_for hquiet time hdone
    have hkey := (servicesRun_filed earlier).watched.stored key svc hstored
    exact hnothing call metadata hdone hobject (isOwned_of_mem_calls hkey hcall hobject)
  have hdeployment : ((servicesRun environment events time).applied key).deployment = none :=
    Option.eq_none_iff_forall_ne_some.mpr fun deployment hheld =>
      hundone (.applyDeployment deployment) _ rfl hheld
  have hservice : ((servicesRun environment events time).applied key).service = none :=
    Option.eq_none_iff_forall_ne_some.mpr fun service hheld =>
      hundone (.applyService service) _ rfl hheld
  have hpolicy : ((servicesRun environment events time).applied key).policy = none :=
    Option.eq_none_iff_forall_ne_some.mpr fun policy hheld =>
      hundone (.applyNetworkPolicy policy) _ rfl hheld
  cases happlied : (servicesRun environment events time).applied key with
  | mk deployment service policy =>
      rw [happlied] at hdeployment hservice hpolicy
      cases hdeployment
      cases hservice
      cases hpolicy
      rfl

/-- From some time on the service is gone and nobody else writes its objects, and
its watch, the reconcile under way and the collection of what it owned go on. -/
structure Removed (environment : VllmServiceController.Environment)
    (events : Nat → ServicesEvent) (key : ServiceKey) : Prop where
  gone : ∀ᶠ time in atTop, (servicesRun environment events time).stored[key]? = none
  quiet : ∀ᶠ time in atTop, ∀ objects, events time ≠ .disturb key objects
  runs : ∀ᶠ time in atTop, ∀ environment, events time ≠ .restart environment
  delivers : ∃ᶠ time in atTop, events time = .deliver
  calls : ∃ᶠ time in atTop, ∃ answer, events time = .call key answer
  collects : ∃ᶠ time in atTop, events time = .collect key

namespace Removed

variable (hremoved : Removed environment events key)

include hremoved

theorem uncached : ∀ᶠ time in atTop,
    (servicesRun environment events time).cache[key]? = none := by
  have hshows := @servicesRun_shows environment events key (fun value => value = none)
    hremoved.delivers hremoved.runs hremoved.gone
  exact hshows.mono fun _ hshown => hshown.cached

theorem pending_shrinks : ∀ᶠ time in atTop,
    ∀ after, (servicesRun environment events (time + 1)).pending key = some after →
      (servicesRun environment events time).pending key = some after ∨
      ((∃ answer, events time = .call key answer) ∧
        (servicesRun environment events time).pending key ≠ none) := by
  filter_upwards [hremoved.uncached] with time hnone after hafter
  rw [servicesRun_succ] at hafter
  rcases ((servicesRun_filed time).next_pending hafter).2 with hsame | ⟨-, -, hcached, -, -⟩ |
    ⟨answer, before, hevent, hbefore, -, -⟩
  · exact .inl hsame
  · rw [hnone] at hcached
    cases hcached
  · refine .inr ⟨⟨answer, hevent⟩, ?_⟩
    rw [hbefore]
    exact Option.some_ne_none before

theorem idle : ∀ᶠ time in atTop,
    (servicesRun environment events time).pending key = none := by
  refine @eventually_of_rank _ (fun time =>
    (servicesRun environment events time).pending key = none)
    (fun time => if (servicesRun environment events time).pending key = none then 0
      else (servicesRun environment events time).callsLeft key) hremoved.calls ?_ ?_ ?_
  · filter_upwards [hremoved.pending_shrinks] with time hshrinks
    rintro ⟨answer, hcall⟩
    by_cases hafter : (servicesRun environment events (time + 1)).pending key = none
    · exact .inr hafter
    · left
      have hbefore : (servicesRun environment events time).pending key ≠ none := by
        obtain ⟨after, hsome⟩ := Option.ne_none_iff_exists'.mp hafter
        rcases hshrinks after hsome with hsame | ⟨-, hbusy⟩
        · rw [hsame]
          exact Option.some_ne_none after
        · exact hbusy
      obtain ⟨pending, hpending⟩ := Option.ne_none_iff_exists'.mp hbefore
      rw [if_neg hafter, if_neg hbefore, servicesRun_succ, hcall]
      rw [servicesRun_succ, hcall] at hafter
      exact Services.callsLeft_call (servicesRun_filed time) hpending hafter
  · filter_upwards [hremoved.pending_shrinks] with time hshrinks hother
    by_cases hafter : (servicesRun environment events (time + 1)).pending key = none
    · rw [if_pos hafter]
      exact Nat.zero_le _
    · obtain ⟨after, hsome⟩ := Option.ne_none_iff_exists'.mp hafter
      rcases hshrinks after hsome with hsame | ⟨hcall, -⟩
      · rw [Services.callsLeft, Services.callsLeft, hsome, hsame]
      · exact absurd hcall hother
  · filter_upwards [hremoved.pending_shrinks] with time hshrinks hnone
    by_contra hafter
    obtain ⟨after, hsome⟩ := Option.ne_none_iff_exists'.mp hafter
    rcases hshrinks after hsome with hsame | ⟨-, hbusy⟩
    · rw [hnone] at hsame
      cases hsame
    · exact hbusy hnone

theorem ownsNothing : ∀ᶠ time in atTop,
    OwnsNothing (servicesRun environment events time) key := by
  refine eventually_of_fair hremoved.collects ?_ ?_
  · filter_upwards [hremoved.gone] with time hnone hcollect
    rw [servicesRun_succ, hcollect]
    exact ownsNothing_collect hnone
  · filter_upwards [hremoved.idle, hremoved.quiet] with time hidle hquiet _ hnothing
    intro call metadata hdone hobject
    rw [servicesRun_succ] at hdone
    rcases (servicesRun_filed time).isDone_of_next hquiet hdone with hbefore |
      ⟨-, pending, -, hpending, -⟩
    · exact hnothing call metadata hbefore hobject
    · rw [hidle] at hpending
      cases hpending

end Removed

end Run

/-- In a run in which nobody else writes a service's objects, each of them, and
its status, is what a reconcile of an object stored under its name before would
write, for some answer about the ready replicas. -/
theorem owned_objects_were_asked_for (environment : VllmServiceController.Environment)
    (events : Nat → ServicesEvent) (key : ServiceKey)
    (hquiet : ∀ time objects, events time ≠ .disturb key objects) (time : Nat)
    (call : VllmServiceController.Call)
    (hdone : (servicesRun environment events time).IsDone key call) :
    ∃ later ≤ time, ∃ earlier ≤ later, ∃ svc ready calls,
      (servicesRun environment events earlier).stored[key]? = some svc ∧
      VllmServiceController.reconcileInner svc
        (servicesRun environment events later).environment ready = .ok calls ∧ call ∈ calls := by
  obtain ⟨later, hlater, earlier, hearlier, svc, ready, hstored, hcall⟩ :=
    done_was_asked_for hquiet time hdone
  unfold PendingReconcile.calls at hcall
  dsimp only at hcall
  cases hcalls : VllmServiceController.reconcileInner svc
      (servicesRun environment events later).environment ready with
  | error error =>
      rw [hcalls] at hcall
      cases hcall
  | ok calls =>
      rw [hcalls] at hcall
      exact ⟨later, hlater, earlier, hearlier, svc, ready, calls, hstored, hcalls, hcall⟩

/-- A service that is removed leaves nothing: no object of it stays, even one
that a reconcile under way made again, and no series.  An object in its place is
one that somebody else wrote. -/
theorem removed_service_leaves_nothing (environment : VllmServiceController.Environment)
    (events : Nat → ServicesEvent) (key : ServiceKey)
    (hremoved : Removed environment events key) :
    ∀ᶠ time in atTop, OwnsNothing (servicesRun environment events time) key ∧
      ((∀ time objects, events time ≠ .disturb key objects) →
        (servicesRun environment events time).applied key = {}) ∧
      (servicesRun environment events time).pending key = none ∧
      (servicesRun environment events time).cache[key]? = none ∧
      ∀ listed, (servicesRun environment events time).Lists listed →
        ∀ family ∈ Metrics.encode listed, Metrics.seriesOf key.name key.ns family = [] := by
  filter_upwards [hremoved.ownsNothing, hremoved.idle, hremoved.uncached] with time hnothing
    hidle hnone
  refine ⟨hnothing, fun hquiet => nothing_applied_of_ownsNothing hquiet hnothing, hidle, hnone,
    fun listed hlisted family hfamily => ?_⟩
  have hseries := (servicesRun_filed time).seriesOf_listed hlisted key
  rw [hnone] at hseries
  have hmem : Metrics.seriesOf key.name key.ns family ∈
      (Metrics.encode listed).map (Metrics.seriesOf key.name key.ns) :=
    List.mem_map_of_mem hfamily
  rw [hseries] at hmem
  obtain ⟨other, hother, hsame⟩ := List.mem_map.mp hmem
  have hnothing : ∀ family ∈ Metrics.encode [], family.series = [] :=
    Metrics.forall_encode fun _ _ _ _ => rfl
  rw [← hsame]
  exact hnothing other hother

namespace Sample

theorem leftAlone_quiet (time : Nat) (objects : Applied) :
    leftAlone time ≠ .disturb chatKey objects := by
  rcases Nat.eq_zero_or_pos time with rfl | hlater
  · simp [leftAlone]
  · rcases leftAlone_later hlater with heq | heq | heq
    · rw [heq]; simp
    · rw [heq]; simp
    · rw [heq]; simp

/-- The Deployment is there after the first reconcile, and was built from the
service. -/
theorem owned_objects_were_asked_for_sample :
    ∃ deployment, ((servicesRun noEnvironment leftAlone 19).applied chatKey).deployment =
        some deployment ∧
      ∃ later ≤ 19, ∃ earlier ≤ later, ∃ svc ready calls,
        (servicesRun noEnvironment leftAlone earlier).stored[chatKey]? = some svc ∧
        VllmServiceController.reconcileInner svc
          (servicesRun noEnvironment leftAlone later).environment ready = .ok calls ∧
        .applyDeployment deployment ∈ calls := by
  have hsome : ((servicesRun noEnvironment leftAlone 19).applied chatKey).deployment.isSome =
      true := by decide +kernel
  obtain ⟨deployment, hdeployment⟩ := Option.isSome_iff_exists.mp hsome
  exact ⟨deployment, hdeployment, owned_objects_were_asked_for noEnvironment leftAlone chatKey
    leftAlone_quiet 19 (.applyDeployment deployment) hdeployment⟩

/-- The service is removed while a reconcile of it is under way. -/
def takenAway (time : Nat) : ServicesEvent :=
  if time < 6 then [.put chat, .deliver, .begin chatKey, .remove chatKey].getD time .deliver
  else if time % 3 = 0 then .deliver
  else if time % 3 = 1 then .call chatKey none
  else .collect chatKey

theorem takenAway_later {time : Nat} (hlater : 6 ≤ time) :
    takenAway time = .deliver ∨ takenAway time = .call chatKey none ∨
      takenAway time = .collect chatKey := by
  rw [takenAway, if_neg (by omega)]
  split
  · exact .inl rfl
  · split
    · exact .inr (.inl rfl)
    · exact .inr (.inr rfl)

theorem takenAway_quiet (time : Nat) (objects : Applied) :
    takenAway time ≠ .disturb chatKey objects := by
  rcases Nat.lt_or_ge time 6 with hearly | hlater
  · interval_cases time <;> simp [takenAway]
  · rcases takenAway_later hlater with heq | heq | heq
    · rw [heq]; simp
    · rw [heq]; simp
    · rw [heq]; simp

theorem takenAway_gone (later : Nat) :
    (servicesRun noEnvironment takenAway (later + 6)).stored[chatKey]? = none := by
  induction later with
  | zero => decide +kernel
  | succ later ih =>
      rw [Nat.add_right_comm, servicesRun_succ]
      rcases takenAway_later (Nat.le_add_left 6 later) with heq | heq | heq
      · rw [heq, Services.next, Services.stored, Watched.deliver_stored]
        exact ih
      · rw [heq]
        rcases Services.call_stored (servicesRun_filed (later + 6)) none with hsame |
          ⟨found, status, hstored, -⟩
        · exact hsame.trans ih
        · rw [ih] at hstored
          cases hstored
      · rw [heq]
        exact ih

theorem takenAway_removed : Removed noEnvironment takenAway chatKey where
  gone := by
    refine eventually_atTop.mpr ⟨6, fun time hlate => ?_⟩
    obtain ⟨later, rfl⟩ := Nat.exists_eq_add_of_le' hlate
    exact takenAway_gone later
  quiet := .of_forall takenAway_quiet
  runs := by
    refine eventually_atTop.mpr ⟨6, fun time hlate environment => ?_⟩
    rcases takenAway_later hlate with heq | heq | heq
    · rw [heq]; simp
    · rw [heq]; simp
    · rw [heq]; simp
  delivers := by
    refine frequently_atTop.mpr fun start => ⟨3 * start + 6, by omega, ?_⟩
    rw [takenAway, if_neg (by omega), if_pos (by omega)]
  calls := by
    refine frequently_atTop.mpr fun start => ⟨3 * start + 7, by omega, none, ?_⟩
    rw [takenAway, if_neg (by omega), if_neg (by omega), if_pos (by omega)]
  collects := by
    refine frequently_atTop.mpr fun start => ⟨3 * start + 8, by omega, ?_⟩
    rw [takenAway, if_neg (by omega), if_neg (by omega), if_neg (by omega)]

/-- The Deployment is made after its owner went, and is gone in the end. -/
theorem removed_service_leaves_nothing_sample :
    (servicesRun noEnvironment takenAway 8).stored[chatKey]? = none ∧
    ((servicesRun noEnvironment takenAway 8).applied chatKey).deployment.isSome = true ∧
    ∀ᶠ time in atTop, (servicesRun noEnvironment takenAway time).applied chatKey = {} := by
  refine ⟨by decide +kernel, by decide +kernel, ?_⟩
  have hnothing := removed_service_leaves_nothing noEnvironment takenAway chatKey
    takenAway_removed
  exact hnothing.mono fun time hall => hall.2.1 takenAway_quiet

end Sample

end VllmColdstartOperator
