import VllmColdstartOperator.Foundation.Fairness
import VllmColdstartOperator.VllmServiceController.Turns

/-!
# A service comes to be what its spec says

However it went before, once a VllmService keeps its metadata and spec, its
Deployment reports the same ready replicas, and its watch and its reconciles go
on undisturbed, what a reconcile of it writes is in place and stays so.
-/

namespace VllmColdstartOperator

open Foundation Std Filter

/-- The same object, up to its status. -/
def VllmService.Same (found svc : VllmService) : Prop :=
  found.metadata = svc.metadata ∧ found.spec = svc.spec

theorem PendingReconcile.calls_of_same {pending : PendingReconcile} {svc : VllmService}
    {ready : Option Int32} (environment : VllmServiceController.Environment)
    (hsame : pending.svc.Same svc) (hready : pending.ready = ready) :
    pending.calls environment = (⟨svc, ready, 0⟩ : PendingReconcile).calls environment := by
  obtain ⟨hmeta, hspec⟩ := hsame
  obtain ⟨⟨metadata, spec, status⟩, answer, made⟩ := pending
  obtain ⟨given, givenSpec, givenStatus⟩ := svc
  dsimp only at hmeta hspec hready
  subst hmeta hspec hready
  rfl

/-- An event that does not disturb the service, a call of whose reconcile is
answered as before. -/
structure ServicesEvent.IsCalm (event : ServicesEvent) (key : ServiceKey)
    (ready : Option Int32) : Prop where
  answered : ∀ answer, event = .call key answer → answer = ready
  completes : event ≠ .fail key
  runs : ∀ environment, event ≠ .restart environment
  undisturbed : ∀ objects, event ≠ .disturb key objects

namespace Services

variable {services : Services} {key : ServiceKey} {svc : VllmService} {ready : Option Int32}

def target (services : Services) (svc : VllmService) (ready : Option Int32) :
    List VllmServiceController.Call :=
  (⟨svc, ready, 0⟩ : PendingReconcile).calls services.environment

def Keeps (services : Services) (key : ServiceKey) (svc : VllmService) : Prop :=
  ∃ found, services.stored[key]? = some found ∧ found.Same svc

/-- The reconcile in progress works on that metadata and spec, and the calls it
made are done. -/
structure Underway (services : Services) (key : ServiceKey) (svc : VllmService)
    (ready : Option Int32) : Prop where
  same : ∀ pending, services.pending key = some pending → pending.svc.Same svc
  answered : ∀ pending, services.pending key = some pending → pending.made ≠ 0 →
    pending.ready = ready
  done : ∀ pending, services.pending key = some pending →
    ∀ call ∈ (services.target svc ready).take pending.made, services.IsDone key call

theorem underway_of_none (hnone : services.pending key = none) :
    services.Underway key svc ready where
  same := fun pending hpending => by rw [hnone] at hpending; cases hpending
  answered := fun pending hpending => by rw [hnone] at hpending; cases hpending
  done := fun pending hpending => by rw [hnone] at hpending; cases hpending

theorem accepts_of_stored {found : VllmService} (hstored : services.stored[key]? = some found)
    (call : VllmServiceController.Call) : services.accepts key call = true := by
  cases call with
  | applyDeployment deployment => rfl
  | applyService service => rfl
  | applyNetworkPolicy policy => rfl
  | patchStatus status =>
      rw [accepts_patchStatus, hstored]
      rfl

theorem Underway.calls_answered (hunderway : services.Underway key svc ready)
    {pending : PendingReconcile} (hpending : services.pending key = some pending) :
    (pending.answered ready).calls services.environment = services.target svc ready := by
  refine PendingReconcile.calls_of_same _ ?_ ?_
  · rw [PendingReconcile.answered_svc]
    exact hunderway.same pending hpending
  · unfold PendingReconcile.answered
    split
    next => rfl
    next hmade => exact hunderway.answered pending hpending hmade

theorem Keeps.svc_key (hkeeps : services.Keeps key svc) (hfiled : services.Filed) :
    svc.key = some key := by
  obtain ⟨found, hstored, hmeta, -⟩ := hkeeps
  have hkey := hfiled.watched.stored key found hstored
  unfold VllmService.key VllmService.name at hkey ⊢
  rwa [← hmeta]

theorem IsDone.put {call : VllmServiceController.Call} {given : VllmService}
    (hkey : given.key = some key) (hdone : services.IsDone key call) :
    (services.put given).IsDone key call := by
  cases call with
  | applyDeployment deployment =>
      rw [IsDone, put_applied]
      exact hdone
  | applyService service =>
      rw [IsDone, put_applied]
      exact hdone
  | applyNetworkPolicy policy =>
      rw [IsDone, put_applied]
      exact hdone
  | patchStatus status =>
      obtain ⟨svc, hstored, hstatus⟩ := hdone
      refine ⟨{ given with status := svc.status }, ?_, hstatus⟩
      rw [Services.put, hkey]
      dsimp only
      rw [hstored]
      exact services.watched.write_stored_self rfl

variable (hfiled : services.Filed) (hkeeps : services.Keeps key svc)

include hfiled hkeeps

theorem Underway.call_eq (hunderway : services.Underway key svc ready)
    {pending : PendingReconcile} (hpending : services.pending key = some pending) :
    ∃ call, (services.target svc ready)[pending.made]? = some call ∧
      services.call key ready =
        (services.perform key call).setPending key (services.later (pending.answered ready)) := by
  obtain ⟨found, hstored, -⟩ := hkeeps
  rcases hfiled.call_cases ready with ⟨hnone, -⟩ | ⟨held, call, hheld, hcall, hcases⟩
  · rw [hnone] at hpending
    cases hpending
  · obtain rfl := Option.some.inj (hheld.symm.trans hpending)
    rw [hunderway.calls_answered hpending] at hcall
    rcases hcases with ⟨-, hcalled⟩ | ⟨hrefused, -⟩
    · exact ⟨call, hcall, hcalled⟩
    · rw [accepts_of_stored hstored] at hrefused
      cases hrefused

theorem target_agree {call other : VllmServiceController.Call}
    (hcall : call ∈ services.target svc ready) (hother : other ∈ services.target svc ready) :
    Agree call other :=
  @agree_of_mem key ⟨svc, ready, 0⟩ services.environment call other
    (hkeeps.svc_key hfiled) hcall hother

omit hfiled in
theorem Keeps.not_orphan {metadata : ObjectMeta} (hname : svc.name = key.name)
    (hmeta : metadata = VllmServiceController.ownedMeta svc key.ns) :
    services.isOrphan key.ns metadata = false := by
  obtain ⟨found, hstored, hfound, -⟩ := hkeeps
  have howner : services.stored[(⟨key.ns, svc.name⟩ : ServiceKey)]? = some found := by
    rw [hname]
    exact hstored
  rw [isOrphan, hmeta, VllmServiceController.ownedMeta]
  simp [howner, hfound]

theorem IsDone.collect {call : VllmServiceController.Call}
    (hcall : call ∈ services.target svc ready) (hdone : services.IsDone key call) :
    (services.collect key).IsDone key call := by
  have hkey := hkeeps.svc_key hfiled
  have hname := (VllmService.key_eq_some.mp hkey).2
  obtain ⟨deployment, service, policy, hbuilds, hdeployment, hservice, hpolicy⟩ :=
    PendingReconcile.exists_builds hkey services.environment
  have hkept : ∀ {Object : Type} (held : Option Object) (metadata : Object → ObjectMeta)
      (object : Object), held = some object →
      metadata object = VllmServiceController.ownedMeta svc key.ns →
      (held.filter fun object => !services.isOrphan key.ns (metadata object)) = some object := by
    intro Object held metadata object hheld hmeta
    rw [hheld, Option.filter_some, hkeeps.not_orphan hname hmeta]
    rfl
  have hcase := @PendingReconcile.mem_calls ⟨svc, ready, 0⟩ services.environment deployment
    service policy hbuilds call
  rcases hcase.mp hcall with rfl | rfl | ⟨-, rfl⟩ | rfl
  · have hheld := hkept _ Deployment.metadata _ hdone hdeployment
    simpa [IsDone, Services.collect, setApplied] using hheld
  · have hheld := hkept _ Service.metadata _ hdone hservice
    simpa [IsDone, Services.collect, setApplied] using hheld
  · have hheld := hkept _ NetworkPolicy.metadata _ hdone hpolicy
    simpa [IsDone, Services.collect, setApplied] using hheld
  · exact hdone

omit hkeeps in
theorem call_stored (answer : Option Int32) :
    (services.call key answer).stored[key]? = services.stored[key]? ∨
      ∃ found status, services.stored[key]? = some found ∧
        (services.call key answer).stored[key]? = some { found with status := some status } := by
  rw [stored, call_watched]
  cases hwrite : services.statusWrite key answer with
  | none => exact .inl rfl
  | some step =>
      obtain ⟨-, status, found, -, -, hstored, rfl⟩ := hfiled.statusWrite_eq hwrite
      exact .inr ⟨found, status, hstored, services.watched.write_stored_self rfl⟩

theorem Keeps.next {event : ServicesEvent}
    (hput : ∀ given, event = .put given → given.key ≠ some key)
    (hremove : event ≠ .remove key) : (Services.next event services).Keeps key svc := by
  obtain ⟨found, hstored, hsame⟩ := id hkeeps
  by_cases hother : event.key = some key
  · have hkept : ∀ after : Services, after.stored[key]? = services.stored[key]? →
        after.Keeps key svc := fun after hafter => ⟨found, hafter.trans hstored, hsame⟩
    cases event with
    | put given => exact absurd hother (hput given rfl)
    | remove own =>
        obtain rfl := Option.some.inj hother
        exact absurd rfl hremove
    | deliver => cases hother
    | relist => cases hother
    | begin own =>
        refine hkept _ ?_
        rw [stored, next_watched]
        rfl
    | call own answer =>
        obtain rfl := Option.some.inj hother
        rcases call_stored hfiled answer with hafter | ⟨before, status, hbefore, hafter⟩
        · exact hkept _ hafter
        · obtain rfl := Option.some.inj (hbefore.symm.trans hstored)
          exact ⟨_, hafter, hsame⟩
    | fail own => exact hkept _ rfl
    | restart environment => cases hother
    | disturb own objects => exact hkept _ rfl
    | collect own => exact hkept _ rfl
  · exact ⟨found, (hfiled.stored_other hother).trans hstored, hsame⟩

variable {event : ServicesEvent} (hcalm : event.IsCalm key ready)
  (hthen : (Services.next event services).Keeps key svc)

include hthen hcalm

/-- What is done stays done, since the reconcile in progress does the same. -/
theorem IsDone.next (hunderway : services.Underway key svc ready)
    {call : VllmServiceController.Call} (hcall : call ∈ services.target svc ready)
    (hdone : services.IsDone key call) : (Services.next event services).IsDone key call := by
  by_cases hother : event.key = some key
  · cases event with
    | put given =>
        exact hdone.put hother
    | remove own =>
        obtain rfl := Option.some.inj hother
        obtain ⟨found, hstored, -⟩ := hthen
        have hnone : (Services.next (.remove own) services).stored[own]? = none :=
          services.watched.write_stored_self rfl
        rw [hnone] at hstored
        cases hstored
    | deliver => cases hother
    | relist => cases hother
    | begin own =>
        refine hdone.congr (congrFun (begin_applied own) key) ?_
        rw [stored, next_watched]
        rfl
    | call own answer =>
        obtain rfl := Option.some.inj hother
        obtain rfl := hcalm.answered answer rfl
        change (services.call own answer).IsDone own call
        cases hpending : services.pending own with
        | none =>
            rw [Services.call, turn_of_none hpending]
            exact hdone
        | some pending =>
            obtain ⟨made, hmade, hcalled⟩ := hunderway.call_eq hfiled hkeeps hpending
            obtain ⟨found, hstored, -⟩ := id hkeeps
            have hagree := target_agree hfiled hkeeps hcall (List.mem_of_getElem? hmade)
            rw [hcalled]
            exact (hdone.perform hagree (accepts_of_stored hstored made)).congr rfl rfl
    | fail own =>
        obtain rfl := Option.some.inj hother
        exact absurd rfl hcalm.completes
    | restart environment => cases hother
    | disturb own objects =>
        obtain rfl := Option.some.inj hother
        exact absurd rfl (hcalm.undisturbed objects)
    | collect own =>
        obtain rfl := Option.some.inj hother
        exact hdone.collect hfiled hkeeps hcall
  · exact hdone.congr (hfiled.applied_other hother) (hfiled.stored_other hother)

omit hkeeps hthen in
theorem target_next : (Services.next event services).target svc ready =
    services.target svc ready := by
  rw [target, target, hfiled.next_environment hcalm.runs]

theorem Underway.next
    (hcached : ∀ found, services.cache[key]? = some found → found.Same svc)
    (hunderway : services.Underway key svc ready) :
    (Services.next event services).Underway key svc ready := by
  have hkept : ∀ {call}, call ∈ services.target svc ready → services.IsDone key call →
      (Services.next event services).IsDone key call := fun hcall hdone =>
    hdone.next hfiled hkeeps hcalm hthen hunderway hcall
  constructor
  · intro after hafter
    rcases (hfiled.next_pending hafter).2 with hsame | ⟨-, -, hbegun, -⟩ |
      ⟨answer, pending, -, hpending, rfl, -⟩
    · exact hunderway.same after hsame
    · exact hcached after.svc hbegun
    · dsimp only
      rw [PendingReconcile.answered_svc]
      exact hunderway.same pending hpending
  · intro after hafter hmade
    rcases (hfiled.next_pending hafter).2 with hsame | ⟨-, -, -, hzero, -⟩ |
      ⟨answer, pending, hevent, hpending, rfl, -⟩
    · exact hunderway.answered after hsame hmade
    · exact absurd hzero hmade
    · obtain rfl := hcalm.answered answer hevent
      dsimp only
      unfold PendingReconcile.answered
      split
      next => rfl
      next hbegun => exact hunderway.answered pending hpending hbegun
  · intro after hafter call hcall
    rw [target_next hfiled hcalm] at hcall
    rcases (hfiled.next_pending hafter).2 with hsame | ⟨-, -, -, hzero, -⟩ |
      ⟨answer, pending, rfl, hpending, rfl, -⟩
    · exact hkept (List.mem_of_mem_take hcall) (hunderway.done after hsame call hcall)
    · rw [hzero, List.take_zero] at hcall
      cases hcall
    · obtain rfl := hcalm.answered answer rfl
      obtain ⟨made, hmade, hcalled⟩ := hunderway.call_eq hfiled hkeeps hpending
      obtain ⟨found, hstored, -⟩ := id hkeeps
      dsimp only at hcall
      rw [List.take_add_one, hmade, Option.toList_some, List.mem_append] at hcall
      rcases hcall with hbefore | hlast
      · exact hkept (List.mem_of_mem_take hbefore) (hunderway.done pending hpending call hbefore)
      · obtain rfl := List.mem_singleton.mp hlast
        change (services.call key answer).IsDone key call
        rw [hcalled]
        exact (isDone_perform (accepts_of_stored hstored call)).congr rfl rfl

omit hkeeps hthen in
theorem pending_kept (hbegin : ¬ (services.pending key = none ∧ event = .begin key))
    (hcall : ¬ (¬ services.pending key = none ∧ ∃ answer, event = .call key answer)) :
    (Services.next event services).pending key = services.pending key := by
  by_cases hother : event.key = some key
  · cases event with
    | put given => exact congrFun (put_pending given) key
    | remove own => rfl
    | deliver => rfl
    | relist => rfl
    | begin own =>
        obtain rfl := Option.some.inj hother
        have hsome : ¬ services.pending own = none := fun hnone => hbegin ⟨hnone, rfl⟩
        rcases @begin_cases services own with hsame | ⟨-, hnone, -⟩
        · rw [Services.next, hsame]
        · exact absurd hnone hsome
    | call own answer =>
        obtain rfl := Option.some.inj hother
        have hnone : services.pending own = none := by
          by_contra hsome
          exact hcall ⟨hsome, answer, rfl⟩
        rw [Services.next, Services.call, turn_of_none hnone]
    | fail own =>
        obtain rfl := Option.some.inj hother
        exact absurd rfl hcalm.completes
    | restart environment => cases hother
    | disturb own objects => rfl
    | collect own => rfl
  · exact hfiled.pending_other hother hcalm.runs

def callsLeft (services : Services) (key : ServiceKey) : Nat :=
  match services.pending key with
  | none => 6
  | some pending => 5 - pending.made

omit hkeeps hcalm hthen in
theorem callsLeft_call {pending : PendingReconcile} {answer : Option Int32}
    (hpending : services.pending key = some pending)
    (hsome : (services.call key answer).pending key ≠ none) :
    (services.call key answer).callsLeft key < services.callsLeft key := by
  obtain ⟨after, hafter⟩ := Option.ne_none_iff_exists'.mp hsome
  have hbound := hfiled.unfinished key pending hpending
  have hfour := @PendingReconcile.calls_bounded pending services.environment
  rcases hfiled.call_cases answer with ⟨hnone, -⟩ | ⟨held, call, hheld, -, ⟨-, hcalled⟩ |
    ⟨-, hcalled⟩⟩
  · rw [hnone] at hpending
    cases hpending
  · obtain rfl := Option.some.inj (hheld.symm.trans hpending)
    have hlater : (services.call key answer).pending key =
        services.later (held.answered answer) := by
      rw [hcalled, setPending_self]
    rw [hlater, later] at hafter
    split at hafter
    next =>
      rw [callsLeft, callsLeft, hlater, later, if_pos ‹_›, hpending]
      dsimp only
      rw [PendingReconcile.answered_made]
      omega
    next => cases hafter
  · rw [hcalled, setPending_self] at hafter
    cases hafter

omit hkeeps hcalm hthen in
theorem callsLeft_begin {found : VllmService} (hnone : services.pending key = none)
    (hcached : services.cache[key]? = some found) :
    (services.begin key).callsLeft key < services.callsLeft key := by
  have hkey := hfiled.watched.cached key found hcached
  obtain ⟨deployment, service, policy, hbuilds, -⟩ :=
    PendingReconcile.exists_builds hkey services.environment
  have hcalls : (⟨found, none, 0⟩ : PendingReconcile).calls services.environment ≠ [] := by
    rw [@PendingReconcile.calls_of_builds ⟨found, none, 0⟩ services.environment deployment
      service policy hbuilds]
    simp
  have hbegun : (services.begin key).pending key = some ⟨found, none, 0⟩ := by
    rw [begin, hnone, hcached]
    dsimp only
    rw [if_neg hcalls, setPending_self]
  rw [callsLeft, callsLeft, hbegun, hnone]
  exact Nat.lt_succ_self 5

/-- The reconcile that is underway makes its next call, and with its last one
everything it writes is in place. -/
theorem Underway.placed_or_left {pending : PendingReconcile}
    (hunderway : services.Underway key svc ready) (hpending : services.pending key = some pending)
    (hevent : event = .call key ready) :
    (Services.next event services).callsLeft key < services.callsLeft key ∨
      ∀ call ∈ services.target svc ready, (Services.next event services).IsDone key call := by
  subst hevent
  by_cases hsome : (services.call key ready).pending key = none
  · right
    intro call hcall
    obtain ⟨made, hmade, hcalled⟩ := hunderway.call_eq hfiled hkeeps hpending
    obtain ⟨found, hstored, -⟩ := id hkeeps
    rw [hcalled, setPending_self, later] at hsome
    split at hsome
    next => cases hsome
    next hlast =>
      rw [PendingReconcile.answered_made, hunderway.calls_answered hpending] at hlast
      have hall : (services.target svc ready).take (pending.made + 1) =
          services.target svc ready := List.take_of_length_le (Nat.not_lt.mp hlast)
      rw [← hall, List.take_add_one, hmade, Option.toList_some, List.mem_append] at hcall
      rcases hcall with hbefore | hend
      · exact (hunderway.done pending hpending call hbefore).next hfiled hkeeps hcalm hthen
          hunderway (List.mem_of_mem_take hbefore)
      · obtain rfl := List.mem_singleton.mp hend
        change (services.call key ready).IsDone key call
        rw [hcalled]
        exact (isDone_perform (accepts_of_stored hstored call)).congr rfl rfl
  · exact .inl (callsLeft_call hfiled hpending hsome)

end Services

/-! ## Runs -/

/-- From some time on the service keeps its metadata and spec, nothing disturbs
it and its Deployment reports the same ready replicas; and its watch and its
reconciles go on. -/
structure Undisturbed (environment : VllmServiceController.Environment)
    (events : Nat → ServicesEvent) (key : ServiceKey) (svc : VllmService)
    (ready : Option Int32) : Prop where
  keeps : ∀ᶠ time in atTop, (servicesRun environment events time).Keeps key svc
  calm : ∀ᶠ time in atTop, (events time).IsCalm key ready
  delivers : ∃ᶠ time in atTop, events time = .deliver
  begins : ∃ᶠ time in atTop, events time = .begin key
  calls : ∃ᶠ time in atTop, ∃ answer, events time = .call key answer

section Run

variable {environment : VllmServiceController.Environment} {events : Nat → ServicesEvent}

theorem servicesRun_filed (time : Nat) : (servicesRun environment events time).Filed := by
  induction time with
  | zero => exact Services.empty_filed environment
  | succ time ih => exact ih.next (events time)

theorem servicesRun_succ (time : Nat) :
    servicesRun environment events (time + 1) =
      Services.next (events time) (servicesRun environment events time) := rfl

theorem servicesRun_watched (time : Nat) :
    (servicesRun environment events (time + 1)).watched =
      (servicesRun environment events time).watched.next
        ((servicesRun environment events time).watchStep (events time)) :=
  Services.next_watched (events time)

theorem servicesRun_shows {key : ServiceKey} {holds : Option VllmService → Prop}
    (hdelivers : ∃ᶠ time in atTop, events time = .deliver)
    (hruns : ∀ᶠ time in atTop, ∀ environment, events time ≠ .restart environment)
    (hstored : ∀ᶠ time in atTop, holds (servicesRun environment events time).stored[key]?) :
    ∀ᶠ time in atTop, (servicesRun environment events time).watched.Shows key holds := by
  refine @Watched.eventually_shows ServiceKey VllmService _ _
    (fun time => (servicesRun environment events time).watched) _ key holds _ _
    Watched.Consistent.empty servicesRun_watched ?_ ?_ hstored
  · refine hdelivers.mono fun time hdeliver => ?_
    rw [hdeliver]
    rfl
  · filter_upwards [hruns] with time hrun hrestart
    obtain ⟨given, hevent⟩ := (servicesRun_filed time).watchStep_restart hrestart
    exact hrun given hevent

namespace Undisturbed

variable {key : ServiceKey} {svc : VllmService} {ready : Option Int32}
  (hundisturbed : Undisturbed environment events key svc ready)

include hundisturbed

theorem keeps_later :
    ∀ᶠ time in atTop, (servicesRun environment events (time + 1)).Keeps key svc :=
  (tendsto_add_atTop_nat 1).eventually hundisturbed.keeps

theorem shows {holds : Option VllmService → Prop}
    (hstored : ∀ᶠ time in atTop, holds (servicesRun environment events time).stored[key]?) :
    ∀ᶠ time in atTop, (servicesRun environment events time).watched.Shows key holds :=
  servicesRun_shows hundisturbed.delivers
    (hundisturbed.calm.mono fun _ hcalm => hcalm.runs) hstored

theorem cached : ∀ᶠ time in atTop, ∃ found,
    (servicesRun environment events time).cache[key]? = some found ∧ found.Same svc := by
  have hshows := @shows environment events key svc ready hundisturbed
    (fun value => ∃ found, value = some found ∧ found.Same svc) hundisturbed.keeps
  exact hshows.mono fun _ hshown => hshown.cached

theorem progresses : ∃ᶠ time in atTop,
    ((servicesRun environment events time).pending key = none ∧ events time = .begin key) ∨
      (¬ (servicesRun environment events time).pending key = none ∧
        ∃ answer, events time = .call key answer) := by
  refine frequently_in_phase hundisturbed.begins hundisturbed.calls ?_
  filter_upwards [hundisturbed.calm] with time hcalm hbegin hcall
  rw [servicesRun_succ, Services.pending_kept (servicesRun_filed time) hcalm hbegin hcall]

theorem callsLeft_stays : ∀ᶠ time in atTop,
    ¬ (((servicesRun environment events time).pending key = none ∧ events time = .begin key) ∨
      (¬ (servicesRun environment events time).pending key = none ∧
        ∃ answer, events time = .call key answer)) →
    (servicesRun environment events (time + 1)).callsLeft key ≤
      (servicesRun environment events time).callsLeft key := by
  filter_upwards [hundisturbed.calm] with time hcalm hidle
  obtain ⟨hbegin, hcall⟩ := not_or.mp hidle
  rw [servicesRun_succ, Services.callsLeft, Services.callsLeft,
    Services.pending_kept (servicesRun_filed time) hcalm hbegin hcall]

theorem underway : ∀ᶠ time in atTop,
    (servicesRun environment events time).Underway key svc ready := by
  have hkept : ∀ᶠ time in atTop, (servicesRun environment events time).Underway key svc ready →
      (servicesRun environment events (time + 1)).Underway key svc ready := by
    filter_upwards [hundisturbed.calm, hundisturbed.keeps, hundisturbed.keeps_later,
      hundisturbed.cached] with time hcalm hkeeps hthen hcached hunderway
    obtain ⟨held, hheld, hsame⟩ := hcached
    refine hunderway.next (servicesRun_filed time) hkeeps hcalm hthen fun found hfound => ?_
    obtain rfl := Option.some.inj (hheld.symm.trans hfound)
    exact hsame
  refine @eventually_of_rank _ (fun time =>
    (servicesRun environment events time).Underway key svc ready)
    (fun time => (servicesRun environment events time).callsLeft key) hundisturbed.progresses
    ?_ hundisturbed.callsLeft_stays hkept
  filter_upwards [hkept] with time hkeep
  rintro (⟨hnone, -⟩ | ⟨hsome, answer, hcall⟩)
  · exact .inr (hkeep (Services.underway_of_none hnone))
  · obtain ⟨pending, hpending⟩ := Option.ne_none_iff_exists'.mp hsome
    rw [servicesRun_succ, hcall]
    by_cases hended : ((servicesRun environment events time).call key answer).pending key = none
    · exact .inr (Services.underway_of_none hended)
    · exact .inl (Services.callsLeft_call (servicesRun_filed time) hpending hended)

theorem placed : ∀ᶠ time in atTop,
    ∀ call ∈ (servicesRun environment events time).target svc ready,
      (servicesRun environment events time).IsDone key call := by
  refine @eventually_of_rank _ (fun time =>
    ∀ call ∈ (servicesRun environment events time).target svc ready,
      (servicesRun environment events time).IsDone key call)
    (fun time => (servicesRun environment events time).callsLeft key) hundisturbed.progresses
    ?_ hundisturbed.callsLeft_stays ?_
  · filter_upwards [hundisturbed.calm, hundisturbed.keeps, hundisturbed.keeps_later,
      hundisturbed.cached, hundisturbed.underway] with time hcalm hkeeps hthen hcached hunderway
    rintro (⟨hnone, hbegin⟩ | ⟨hsome, answer, hcall⟩)
    · obtain ⟨found, hfound, -⟩ := hcached
      rw [servicesRun_succ, hbegin]
      exact .inl (Services.callsLeft_begin (servicesRun_filed time) hnone hfound)
    · obtain ⟨pending, hpending⟩ := Option.ne_none_iff_exists'.mp hsome
      obtain rfl := hcalm.answered answer hcall
      have hcases := hunderway.placed_or_left (servicesRun_filed time) hkeeps hcalm hthen hpending
        hcall
      rw [servicesRun_succ, Services.target_next (servicesRun_filed time) hcalm]
      exact hcases
  · filter_upwards [hundisturbed.calm, hundisturbed.keeps, hundisturbed.keeps_later,
      hundisturbed.underway] with time hcalm hkeeps hthen hunderway hdone
    intro call hcall
    rw [servicesRun_succ, Services.target_next (servicesRun_filed time) hcalm] at hcall
    exact (hdone call hcall).next (servicesRun_filed time) hkeeps hcalm hthen hunderway hcall

end Undisturbed

end Run

end VllmColdstartOperator
