import VllmColdstartOperator.Guarantees.InPlace
import VllmColdstartOperator.Metrics

/-!
# What a scrape shows

Each service's part of a scrape is made from one object, which the service was
at some time before: no label set comes twice, no series is of a service that
the cache does not hold, and of a phase that was written exactly one series is
one.  A service that is left alone comes to be shown as it is.
-/

namespace VllmColdstartOperator

open Foundation Std Filter

namespace Metrics

def keyLabels (key : ServiceKey) : List (String × String) :=
  [("name", key.name), ("namespace", key.ns)]

theorem keyLabels_injective : Function.Injective keyLabels := by
  intro left right hsame
  cases left
  cases right
  simp [keyLabels] at hsame
  rw [hsame.1, hsame.2]

theorem serviceLabels_of_key {svc : VllmService} {key : ServiceKey} (hkey : svc.key = some key) :
    serviceLabels svc = keyLabels key := by
  obtain ⟨hns, hname⟩ := VllmService.key_eq_some.mp hkey
  rw [serviceLabels, keyLabels, hns, hname]
  rfl

theorem phaseFor_mem (desired ready : Int32) : (phaseFor desired ready).1 ∈ phases := by
  unfold phaseFor
  split
  · exact List.mem_cons_self
  · split
    · exact List.mem_cons_of_mem _ List.mem_cons_self
    · exact List.mem_cons_of_mem _ (List.mem_cons_of_mem _ List.mem_cons_self)

theorem phaseSeries_active {svc : VllmService} {status : VllmServiceStatus}
    (hstatus : svc.status = some status) (hphase : status.phase ∈ phases) :
    ((phaseSeries svc).filter fun one => one.value = .int 1) =
      [⟨phaseLabels svc status.phase, .int 1⟩] := by
  rw [phaseSeries, hstatus]
  obtain ⟨phase, message⟩ := status
  simp only [phases, List.mem_cons, List.not_mem_nil, or_false] at hphase
  rcases hphase with rfl | rfl | rfl
  · rfl
  · rfl
  · rfl

end Metrics

namespace Services

variable {services : Services} {listed : List VllmService}

def Lists (services : Services) (listed : List VllmService) : Prop :=
  listed.Perm (services.cache.toList.map Prod.snd)

theorem Lists.mem_iff (hlisted : services.Lists listed) (svc : VllmService) :
    svc ∈ listed ↔ ∃ key : ServiceKey, services.cache[key]? = some svc := by
  rw [List.Perm.mem_iff hlisted, List.mem_map]
  constructor
  · rintro ⟨⟨key, held⟩, hmem, rfl⟩
    exact ⟨key, ExtTreeMap.mem_toList_iff_getElem?_eq_some.mp hmem⟩
  · rintro ⟨key, hcached⟩
    exact ⟨(key, svc), ExtTreeMap.mem_toList_iff_getElem?_eq_some.mpr hcached, rfl⟩

namespace Filed

variable (hfiled : services.Filed) (hlisted : services.Lists listed)

include hfiled hlisted

theorem listed_nodup : (listed.map Metrics.serviceLabels).Nodup := by
  have hlabels : (services.cache.toList.map Prod.snd).map Metrics.serviceLabels =
      (services.cache.toList.map Prod.fst).map Metrics.keyLabels := by
    rw [List.map_map, List.map_map]
    refine List.map_congr_left fun entry hmem => ?_
    have hcached := ExtTreeMap.mem_toList_iff_getElem?_eq_some.mp hmem
    exact Metrics.serviceLabels_of_key (hfiled.watched.cached entry.1 entry.2 hcached)
  rw [(hlisted.map Metrics.serviceLabels).nodup_iff, hlabels]
  exact services.cache.keys_nodup.map Metrics.keyLabels_injective

theorem listed_filter (key : ServiceKey) :
    (listed.filter fun svc => decide (Metrics.serviceLabels svc = Metrics.keyLabels key)) =
      (services.cache[key]?).toList := by
  have hheld : ∀ svc, svc ∈ listed ∧ Metrics.serviceLabels svc = Metrics.keyLabels key ↔
      services.cache[key]? = some svc := by
    intro svc
    rw [hlisted.mem_iff]
    constructor
    · rintro ⟨⟨own, hcached⟩, hlabels⟩
      rw [Metrics.serviceLabels_of_key (hfiled.watched.cached own svc hcached)] at hlabels
      rwa [← Metrics.keyLabels_injective hlabels]
    · intro hcached
      exact ⟨⟨key, hcached⟩, Metrics.serviceLabels_of_key (hfiled.watched.cached key svc hcached)⟩
  have hnodup : (listed.filter fun svc =>
      decide (Metrics.serviceLabels svc = Metrics.keyLabels key)).Nodup :=
    (hfiled.listed_nodup hlisted).of_map.filter _
  cases hcached : services.cache[key]? with
  | none =>
      rw [Option.toList_none, List.filter_eq_nil_iff]
      intro svc hmem hlabels
      have hsome := (hheld svc).mp ⟨hmem, of_decide_eq_true hlabels⟩
      rw [hcached] at hsome
      cases hsome
  | some svc =>
      refine List.perm_singleton.mp ((List.perm_ext_iff_of_nodup hnodup
        (List.nodup_singleton svc)).mpr fun other => ?_)
      rw [List.mem_filter, decide_eq_true_eq, hheld, hcached, Option.some.injEq,
        List.mem_singleton, eq_comm]

/-- A service's part of a scrape is the scrape of its cached object. -/
theorem seriesOf_listed (key : ServiceKey) :
    (Metrics.encode listed).map (Metrics.seriesOf key.name key.ns) =
      (Metrics.encode (services.cache[key]?).toList).map MetricFamily.series := by
  rw [Metrics.encode_seriesOf, ← hfiled.listed_filter hlisted key]
  rfl

omit hlisted in
theorem statusWrite_phase {key : ServiceKey} {ready : Option Int32}
    {step : WatchStep ServiceKey VllmService}
    (hwrite : services.statusWrite key ready = some step) :
    ∃ (svc : VllmService) (status : VllmServiceStatus), status.phase ∈ Metrics.phases ∧
      step = .write ⟨key, some { svc with status := some status }⟩ := by
  obtain ⟨pending, status, svc, hpending, hcall, -, hstep⟩ := hfiled.statusWrite_eq hwrite
  have hkey : (pending.answered ready).svc.key = some key := by
    rw [PendingReconcile.answered_svc]
    exact hfiled.pending key pending hpending
  obtain ⟨deployment, service, policy, hbuilds, -⟩ :=
    PendingReconcile.exists_builds hkey services.environment
  refine ⟨svc, status, ?_, hstep⟩
  rcases (PendingReconcile.mem_calls hbuilds _).mp (List.mem_of_getElem? hcall) with heq | heq |
    ⟨-, heq⟩ | heq
  · cases heq
  · cases heq
  · cases heq
  · obtain rfl := VllmServiceController.Call.patchStatus.inj heq
    exact Metrics.phaseFor_mem _ _

end Filed

def HasPhase (svc : VllmService) : Prop :=
  ∀ status, svc.status = some status → status.phase ∈ Metrics.phases

end Services

section Run

variable {environment : VllmServiceController.Environment} {events : Nat → ServicesEvent}

theorem servicesRun_hasPhase (time : Nat) :
    (servicesRun environment events time).watched.Every fun _ svc => Services.HasPhase svc := by
  induction time with
  | zero => exact Watched.Every.empty _
  | succ time ih =>
      rw [servicesRun_watched]
      refine ih.next fun change hwrite svc hvalue status hstatus => ?_
      have hfiled := @servicesRun_filed environment events time
      cases hevent : events time with
      | put given =>
          rw [hevent] at hwrite
          obtain ⟨own, -, hchange⟩ := Option.map_eq_some_iff.mp hwrite
          obtain rfl := WatchStep.write.inj hchange
          obtain rfl := Option.some.inj hvalue
          obtain ⟨found, hstored, hfound⟩ := Option.bind_eq_some_iff.mp hstatus
          exact ih.stored own found hstored status hfound
      | remove key =>
          rw [hevent] at hwrite
          obtain rfl := WatchStep.write.inj (Option.some.inj hwrite)
          cases hvalue
      | deliver => rw [hevent] at hwrite; cases hwrite
      | relist => rw [hevent] at hwrite; cases hwrite
      | begin key => rw [hevent] at hwrite; cases hwrite
      | call key answer =>
          rw [hevent] at hwrite
          obtain ⟨found, written, hphase, hchange⟩ := hfiled.statusWrite_phase hwrite
          obtain rfl := WatchStep.write.inj hchange
          obtain rfl := Option.some.inj hvalue
          obtain rfl := Option.some.inj hstatus
          exact hphase
      | fail key => rw [hevent] at hwrite; cases hwrite
      | restart given => rw [hevent] at hwrite; cases hwrite
      | disturb key objects => rw [hevent] at hwrite; cases hwrite
      | collect key => rw [hevent] at hwrite; cases hwrite

theorem cached_was_stored (environment : VllmServiceController.Environment)
    (events : Nat → ServicesEvent) (time : Nat) (key : ServiceKey) :
    ∃ earlier ≤ time, (servicesRun environment events earlier).stored[key]? =
      (servicesRun environment events time).cache[key]? :=
  (@Watched.shows_past ServiceKey VllmService _ _
    (fun time => (servicesRun environment events time).watched) _ _ _ rfl servicesRun_watched key
    time).cached

end Run

/-- In any run, what a scrape says of a service is what it was at one time
before; no label set comes twice, and of a phase that was written exactly one
series is one. -/
theorem scrape_shows_what_was (environment : VllmServiceController.Environment)
    (events : Nat → ServicesEvent) (time : Nat) {listed : List VllmService}
    (hlisted : (servicesRun environment events time).Lists listed) :
    (∀ family ∈ Metrics.encode listed, (family.series.map GaugeSeries.labels).Nodup) ∧
    (∀ key : ServiceKey, ∃ earlier ≤ time,
      (Metrics.encode listed).map (Metrics.seriesOf key.name key.ns) =
        (Metrics.encode ((servicesRun environment events earlier).stored[key]?).toList).map
          MetricFamily.series) ∧
    (∀ family ∈ Metrics.encode listed, ∀ one ∈ family.series,
      ∃ svc ∈ listed, one.labels.take 2 = Metrics.serviceLabels svc) ∧
    ∀ svc ∈ listed, ∀ status, svc.status = some status →
      ((Metrics.phaseSeries svc).filter fun one => one.value = .int 1) =
        [⟨Metrics.phaseLabels svc status.phase, .int 1⟩] := by
  have hfiled := @servicesRun_filed environment events time
  refine ⟨Metrics.encode_nodup (hfiled.listed_nodup hlisted), ?_, ?_, ?_⟩
  · intro key
    obtain ⟨earlier, hle, hstored⟩ := cached_was_stored environment events time key
    refine ⟨earlier, hle, ?_⟩
    rw [hfiled.seriesOf_listed hlisted key, hstored]
  · refine Metrics.forall_encode fun name help series hnames one hone => ?_
    obtain ⟨svc, hsvc, hmem⟩ := List.mem_flatMap.mp hone
    exact ⟨svc, hsvc, hnames.named svc one hmem⟩
  · intro svc hmem status hstatus
    obtain ⟨key, hcached⟩ := (hlisted.mem_iff svc).mp hmem
    exact Metrics.phaseSeries_active hstatus
      ((servicesRun_hasPhase time).cached key svc hcached status hstatus)

def VllmService.withPhase (svc : VllmService) (ready : Option Int32) : VllmService :=
  let (phase, message) := phaseFor svc.spec.replicas (ready.getD 0)
  { svc with status := some ⟨phase, message⟩ }

theorem Services.stored_of_done {services : Services} {key : ServiceKey} {svc : VllmService}
    {ready : Option Int32} (hkeeps : services.Keeps key svc)
    (hdone : services.IsDone key (.patchStatus (⟨svc, ready, 0⟩ : PendingReconcile).status)) :
    services.stored[key]? = some (svc.withPhase ready) := by
  obtain ⟨found, hfound, hmeta, hspec⟩ := hkeeps
  obtain ⟨held, hheld, hstatus⟩ := hdone
  obtain rfl := Option.some.inj (hfound.symm.trans hheld)
  have hsame : found = svc.withPhase ready := by
    obtain ⟨metadata, spec, status⟩ := found
    dsimp only at hmeta hspec hstatus
    rw [hmeta, hspec, hstatus]
    rfl
  rw [hfound, hsame]

/-- A service that is left alone comes to be what its spec says: all that a
reconcile writes is in place, and a scrape shows it as it is. -/
theorem service_comes_to_be (environment : VllmServiceController.Environment)
    (events : Nat → ServicesEvent) (key : ServiceKey) (svc : VllmService) (ready : Option Int32)
    (hundisturbed : Undisturbed environment events key svc ready) :
    ∀ᶠ time in atTop,
      (∃ calls, VllmServiceController.reconcileInner svc
          (servicesRun environment events time).environment ready = .ok calls ∧
        ∀ call ∈ calls, (servicesRun environment events time).IsDone key call) ∧
      (servicesRun environment events time).stored[key]? = some (svc.withPhase ready) ∧
      (servicesRun environment events time).cache[key]? = some (svc.withPhase ready) ∧
      ∀ listed, (servicesRun environment events time).Lists listed →
        (Metrics.encode listed).map (Metrics.seriesOf key.name key.ns) =
          (Metrics.encode [svc.withPhase ready]).map MetricFamily.series := by
  have hcalls : ∀ᶠ time in atTop, ∃ calls, VllmServiceController.reconcileInner svc
      (servicesRun environment events time).environment ready = .ok calls ∧
      .patchStatus (⟨svc, ready, 0⟩ : PendingReconcile).status ∈ calls ∧
      ∀ call ∈ calls, (servicesRun environment events time).IsDone key call := by
    filter_upwards [hundisturbed.placed, hundisturbed.keeps] with time hplaced hkeeps
    obtain ⟨deployment, service, policy, hbuilds, -⟩ := PendingReconcile.exists_builds
      (hkeeps.svc_key (servicesRun_filed time)) (servicesRun environment events time).environment
    have hstatus := (@PendingReconcile.mem_calls ⟨svc, ready, 0⟩ _ _ _ _ hbuilds _).mpr
      (.inr (.inr (.inr rfl)))
    unfold Services.target at hplaced
    unfold PendingReconcile.calls at hplaced hstatus
    dsimp only at hplaced hstatus
    cases hcalls : VllmServiceController.reconcileInner svc
        (servicesRun environment events time).environment ready with
    | error error =>
        rw [hcalls] at hstatus
        cases hstatus
    | ok calls =>
        rw [hcalls] at hplaced hstatus
        exact ⟨calls, rfl, hstatus, hplaced⟩
  have hstored : ∀ᶠ time in atTop,
      (servicesRun environment events time).stored[key]? = some (svc.withPhase ready) := by
    filter_upwards [hcalls, hundisturbed.keeps] with time hdone hkeeps
    obtain ⟨calls, -, hstatus, hdone⟩ := hdone
    exact Services.stored_of_done hkeeps (hdone _ hstatus)
  have hshows := @Undisturbed.shows environment events key svc ready hundisturbed
    (fun value => value = some (svc.withPhase ready)) hstored
  filter_upwards [hcalls, hstored, hshows] with time hdone hnow hshown
  obtain ⟨calls, hok, -, hdone⟩ := hdone
  refine ⟨⟨calls, hok, hdone⟩, hnow, hshown.cached, fun listed hlisted => ?_⟩
  rw [(servicesRun_filed time).seriesOf_listed hlisted key, hshown.cached]
  rfl

namespace Sample

def chat : VllmService where
  metadata := ⟨"chat", some "team", "1", none, []⟩
  spec := {
    model := "m"
    replicas := 1
    warmupStrategy := .graph
    image := "pause"
    gpu := 0
    healthPath := ""
    runtimeClassName := none
    extraArgs := []
    cpu := none
    memory := none
    nodeName := none
    modelCacheHostPath := none
    apiKeySecretRef := none
    objective := none
    budget := none }
  status := none

def chatKey : ServiceKey := ⟨"team", "chat"⟩

def noEnvironment : VllmServiceController.Environment := ⟨none, none, none⟩

/-- The service is created, and then watched and reconciled in turn. -/
def leftAlone (time : Nat) : ServicesEvent :=
  if time = 0 then .put chat
  else if time % 3 = 0 then .deliver
  else if time % 3 = 1 then .begin chatKey
  else .call chatKey (some 1)

theorem leftAlone_later {time : Nat} (hlater : 0 < time) :
    leftAlone time = .deliver ∨ leftAlone time = .begin chatKey ∨
      leftAlone time = .call chatKey (some 1) := by
  rw [leftAlone, if_neg hlater.ne']
  split
  · exact .inl rfl
  · split
    · exact .inr (.inl rfl)
    · exact .inr (.inr rfl)

theorem leftAlone_keeps (time : Nat) :
    (servicesRun noEnvironment leftAlone (time + 1)).Keeps chatKey chat := by
  induction time with
  | zero => exact ⟨chat, Watched.write_stored_self _ rfl, rfl, rfl⟩
  | succ time ih =>
      rw [servicesRun_succ]
      refine ih.next (servicesRun_filed _) ?_ ?_
      · rintro given hput -
        rcases leftAlone_later (Nat.succ_pos time) with heq | heq | heq
        · rw [heq] at hput; cases hput
        · rw [heq] at hput; cases hput
        · rw [heq] at hput; cases hput
      · rcases leftAlone_later (Nat.succ_pos time) with heq | heq | heq
        · rw [heq]; simp
        · rw [heq]; simp
        · rw [heq]; simp

theorem leftAlone_undisturbed :
    Undisturbed noEnvironment leftAlone chatKey chat (some 1) where
  keeps := by
    refine eventually_atTop.mpr ⟨1, fun time hlate => ?_⟩
    obtain ⟨later, rfl⟩ := Nat.exists_eq_add_of_le' hlate
    exact leftAlone_keeps later
  calm := by
    refine eventually_atTop.mpr ⟨1, fun time hlate => ?_⟩
    rcases leftAlone_later hlate with heq | heq | heq
    · rw [heq]
      exact ⟨by simp, by simp, by simp, by simp⟩
    · rw [heq]
      exact ⟨by simp, by simp, by simp, by simp⟩
    · rw [heq]
      exact ⟨by simp, by simp, by simp, by simp⟩
  delivers := by
    refine frequently_atTop.mpr fun start => ⟨3 * start + 3, by omega, ?_⟩
    rw [leftAlone, if_neg (by omega), if_pos (by omega)]
  begins := by
    refine frequently_atTop.mpr fun start => ⟨3 * start + 1, by omega, ?_⟩
    rw [leftAlone, if_neg (by omega), if_neg (by omega), if_pos (by omega)]
  calls := by
    refine frequently_atTop.mpr fun start => ⟨3 * start + 2, by omega, some 1, ?_⟩
    rw [leftAlone, if_neg (by omega), if_neg (by omega), if_neg (by omega)]

theorem service_comes_to_be_sample :
    (chat.withPhase (some 1)).status.map VllmServiceStatus.phase = some "Ready" ∧
    ∀ᶠ time in atTop,
      (servicesRun noEnvironment leftAlone time).stored[chatKey]? =
        some (chat.withPhase (some 1)) ∧
      (servicesRun noEnvironment leftAlone time).cache[chatKey]? =
        some (chat.withPhase (some 1)) := by
  refine ⟨by decide +kernel, ?_⟩
  have hcomes := service_comes_to_be noEnvironment leftAlone chatKey chat (some 1)
    leftAlone_undisturbed
  exact hcomes.mono fun time hboth => ⟨hboth.2.1, hboth.2.2.1⟩

/-- After a first reconcile the watch delivers the status, and the scrape shows
the phase. -/
theorem scrape_shows_what_was_sample :
    ((Metrics.encode ((servicesRun noEnvironment leftAlone 19).cache.toList.map Prod.snd)).map
        fun family => (family.name, family.series.length)) =
      [("vllmservice_phase", 3), ("vllmservice_objective_ttft_seconds", 0),
        ("vllmservice_objective_percentile", 0), ("vllmservice_budget_eur_per_month", 0),
        ("vllmservice_desired_replicas", 1)] ∧
    ∀ svc ∈ (servicesRun noEnvironment leftAlone 19).cache.toList.map Prod.snd,
      ∀ status, svc.status = some status →
        ((Metrics.phaseSeries svc).filter fun one => one.value = .int 1) =
          [⟨Metrics.phaseLabels svc status.phase, .int 1⟩] :=
  ⟨by decide +kernel, (scrape_shows_what_was noEnvironment leftAlone 19 (List.Perm.refl _)).2.2.2⟩

end Sample

end VllmColdstartOperator
