import VllmColdstartOperator.VllmService

/-!
# What a scrape says of the services

`encode` makes the families of a scrape from the services in the operator's
cache: the phase of each, its declared objective and budget, and the replicas
it asks for.  `seriesOf` is the part of a scrape about one service, and it is
the scrape of that service alone.
-/

namespace VllmColdstartOperator

/-- An integer, or the bits of a double. -/
inductive GaugeValue where
  | int (value : Int64)
  | double (bits : BitVec 64)
  deriving DecidableEq

structure GaugeSeries where
  labels : List (String × String)
  value : GaugeValue
  deriving DecidableEq

structure MetricFamily where
  name : String
  help : String
  series : List GaugeSeries
  deriving DecidableEq

namespace Metrics

def phases : List String := ["Pending", "Warming", "Ready"]

def serviceLabels (svc : VllmService) : List (String × String) :=
  [("name", svc.name), ("namespace", svc.metadata.ns.getD "")]

def phaseLabels (svc : VllmService) (phase : String) : List (String × String) :=
  serviceLabels svc ++ [("phase", phase)]

/-- None until the first reconcile has written a phase. -/
def phaseSeries (svc : VllmService) : List GaugeSeries :=
  match svc.status with
  | none => []
  | some status => phases.map fun phase =>
      ⟨phaseLabels svc phase, .int (if phase = status.phase then 1 else 0)⟩

/-- One series, when the team declared the value. -/
def declaredSeries (value : VllmService → Option GaugeValue) (svc : VllmService) :
    List GaugeSeries :=
  match value svc with
  | none => []
  | some value => [⟨serviceLabels svc, value⟩]

def objectiveTtftSeries : VllmService → List GaugeSeries :=
  declaredSeries fun svc => svc.spec.objective.map fun objective => .double objective.ttftSeconds

def objectivePercentileSeries : VllmService → List GaugeSeries :=
  declaredSeries fun svc => svc.spec.objective.map fun objective => .double objective.percentile

def budgetSeries : VllmService → List GaugeSeries :=
  declaredSeries fun svc => svc.spec.budget.map fun budget => .double budget.eurPerMonth

def desiredReplicasSeries : VllmService → List GaugeSeries :=
  declaredSeries fun svc => some (.int svc.spec.replicas.toInt64)

def encodeFamily (services : List VllmService) (name help : String)
    (series : VllmService → List GaugeSeries) : MetricFamily :=
  ⟨name, help, services.flatMap series⟩

def encode (services : List VllmService) : List MetricFamily :=
  [encodeFamily services "vllmservice_phase" "Current phase of each VllmService (1 = active)"
      phaseSeries,
    encodeFamily services "vllmservice_objective_ttft_seconds"
      "Time to first token objective declared by the team (spec.objective.ttftSeconds)"
      objectiveTtftSeries,
    encodeFamily services "vllmservice_objective_percentile"
      ("Share of requests that must meet the TTFT objective, in percent " ++
        "(spec.objective.percentile)")
      objectivePercentileSeries,
    encodeFamily services "vllmservice_budget_eur_per_month"
      "Monthly budget declared by the team, in EUR (spec.budget.eurPerMonth)" budgetSeries,
    encodeFamily services "vllmservice_desired_replicas"
      "Replicas each VllmService asks for (spec.replicas)" desiredReplicasSeries]

/-! ## The part of a scrape about one service -/

/-- Series of one service under distinct labels, all of which name it. -/
structure Names (series : VllmService → List GaugeSeries) : Prop where
  nodup : ∀ svc, ((series svc).map GaugeSeries.labels).Nodup
  named : ∀ svc, ∀ one ∈ series svc, one.labels.take 2 = serviceLabels svc

theorem names_phaseSeries : Names phaseSeries where
  nodup := by
    intro svc
    unfold phaseSeries
    cases svc.status with
    | none => exact List.nodup_nil
    | some status => simp [phases, phaseLabels]
  named := by
    intro svc one hone
    unfold phaseSeries at hone
    cases hstatus : svc.status with
    | none =>
        rw [hstatus] at hone
        cases hone
    | some status =>
        rw [hstatus] at hone
        obtain ⟨phase, -, rfl⟩ := List.mem_map.mp hone
        rfl

theorem names_declaredSeries (value : VllmService → Option GaugeValue) :
    Names (declaredSeries value) where
  nodup := by
    intro svc
    unfold declaredSeries
    cases value svc with
    | none => exact List.nodup_nil
    | some value => exact List.nodup_singleton _
  named := by
    intro svc one hone
    unfold declaredSeries at hone
    cases hvalue : value svc with
    | none =>
        rw [hvalue] at hone
        cases hone
    | some value =>
        rw [hvalue] at hone
        obtain rfl := List.mem_singleton.mp hone
        rfl

def seriesOf (name ns : String) (family : MetricFamily) : List GaugeSeries :=
  family.series.filter fun one => one.labels.take 2 = [("name", name), ("namespace", ns)]

namespace Names

variable {series : VllmService → List GaugeSeries} (hnames : Names series)

include hnames

theorem filter_series (svc : VllmService) (labels : List (String × String)) :
    ((series svc).filter fun one => one.labels.take 2 = labels) =
      if serviceLabels svc = labels then series svc else [] := by
  split
  next heq =>
    rw [List.filter_eq_self]
    intro one hone
    rw [hnames.named svc one hone, heq]
    exact decide_eq_true rfl
  next hne =>
    rw [List.filter_eq_nil_iff]
    intro one hone
    rw [hnames.named svc one hone]
    simpa using hne

theorem seriesOf_encodeFamily (services : List VllmService) (family help name ns : String) :
    seriesOf name ns (encodeFamily services family help series) =
      (services.filter fun svc =>
        decide (serviceLabels svc = [("name", name), ("namespace", ns)])).flatMap series := by
  change (services.flatMap series).filter _ = _
  induction services with
  | nil => rfl
  | cons svc services ih =>
      rw [List.flatMap_cons, List.filter_append, ih, hnames.filter_series, List.filter_cons]
      split
      next heq => rw [if_pos (decide_eq_true heq), List.flatMap_cons]
      next hne => rw [if_neg (by simpa using hne), List.nil_append]

theorem nodup_encodeFamily {services : List VllmService}
    (hdistinct : (services.map serviceLabels).Nodup) (family help : String) :
    ((encodeFamily services family help series).series.map GaugeSeries.labels).Nodup := by
  change ((services.flatMap series).map GaugeSeries.labels).Nodup
  rw [List.map_flatMap, List.nodup_flatMap]
  refine ⟨fun svc _ => hnames.nodup svc, ?_⟩
  rw [List.nodup_iff_pairwise_ne, List.pairwise_map] at hdistinct
  refine hdistinct.imp fun {left right} hne labels hleft hright => hne ?_
  obtain ⟨one, hone, rfl⟩ := List.mem_map.mp hleft
  obtain ⟨other, hother, hsame⟩ := List.mem_map.mp hright
  rw [← hnames.named left one hone, ← hsame, hnames.named right other hother]

end Names

theorem forall_encode {services : List VllmService} {holds : MetricFamily → Prop}
    (hfamily : ∀ name help series, Names series → holds (encodeFamily services name help series)) :
    ∀ family ∈ encode services, holds family := by
  intro family hmem
  simp only [encode, List.mem_cons, List.not_mem_nil, or_false] at hmem
  rcases hmem with rfl | rfl | rfl | rfl | rfl
  · exact hfamily _ _ _ names_phaseSeries
  · exact hfamily _ _ _ (names_declaredSeries _)
  · exact hfamily _ _ _ (names_declaredSeries _)
  · exact hfamily _ _ _ (names_declaredSeries _)
  · exact hfamily _ _ _ (names_declaredSeries _)

theorem encode_nodup {services : List VllmService}
    (hdistinct : (services.map serviceLabels).Nodup) :
    ∀ family ∈ encode services, (family.series.map GaugeSeries.labels).Nodup :=
  forall_encode fun name help _ hnames => hnames.nodup_encodeFamily hdistinct name help

/-- The part of a scrape about one service is made from that service alone. -/
theorem encode_seriesOf (services : List VllmService) (name ns : String) :
    (encode services).map (seriesOf name ns) =
      (encode (services.filter fun svc =>
        decide (serviceLabels svc = [("name", name), ("namespace", ns)]))).map
          MetricFamily.series := by
  unfold encode
  simp only [List.map_cons, List.map_nil, names_phaseSeries.seriesOf_encodeFamily,
    (names_declaredSeries _).seriesOf_encodeFamily, objectiveTtftSeries,
    objectivePercentileSeries, budgetSeries, desiredReplicasSeries]
  rfl

end Metrics

end VllmColdstartOperator
