import VllmColdstartOperator.FleetController.World
import VllmColdstartOperator.Foundation.Labels
import VllmColdstartOperator.VllmServiceController.Objects

/-!
# The selectors of the owned objects

The Deployment, the Service and the NetworkPolicy of a VllmService each select
pods by labels, and a fleet finds the pods of its children by a label query.
-/

namespace VllmColdstartOperator

open Foundation Std

namespace LabelSelectorRequirement

/-- An operator the API server does not know selects nothing. -/
def selects (requirement : LabelSelectorRequirement) (labels : BTreeMap String String) : Bool :=
  match requirement.operator, labels[requirement.key]? with
  | "In", some value => requirement.values.contains value
  | "NotIn", some value => !requirement.values.contains value
  | "NotIn", none => true
  | "Exists", found => found.isSome
  | "DoesNotExist", found => found.isNone
  | _, _ => false

end LabelSelectorRequirement

/-- Both lists must hold; an empty selector selects every label map. -/
def LabelSelector.selects (selector : LabelSelector) (labels : BTreeMap String String) : Bool :=
  (selector.matchLabels.all fun wanted => matchesLabels wanted labels) &&
    (selector.matchExpressions.all fun expressions =>
      expressions.all fun requirement => requirement.selects labels)

theorem LabelSelector.selects_matchLabels (wanted labels : BTreeMap String String) :
    LabelSelector.selects { matchLabels := some wanted } labels = matchesLabels wanted labels := by
  simp [LabelSelector.selects]

namespace VllmServiceController

structure OwnedObjects where
  deployment : Deployment
  service : Service
  policy : NetworkPolicy

def buildOwned (svc : VllmService) (metricsNs : String) (extraNs : List String) :
    Except Error OwnedObjects := do
  let deployment ← buildDeployment svc
  let service ← buildService svc
  let policy ← buildNetworkPolicyWith svc metricsNs extraNs
  .ok ⟨deployment, service, policy⟩

namespace OwnedObjects

variable (owned : OwnedObjects)

def selectors : List LabelSelector :=
  [owned.deployment.spec.selector, { matchLabels := some owned.service.selector },
    owned.policy.podSelector]

def pods : BTreeMap String String := owned.deployment.spec.template.labels

end OwnedObjects

variable (svc other : VllmService)

theorem buildOwned_spec {ns : String} (hns : svc.metadata.ns = some ns) (metricsNs : String)
    (extraNs : List String) :
    ∃ owned, buildOwned svc metricsNs extraNs = .ok owned ∧
      owned.selectors = [{ matchLabels := some (ownedLabels svc) },
        { matchLabels := some (selectorLabels svc) },
        { matchLabels := some (selectorLabels svc) }] ∧
      owned.pods = podLabels svc := by
  simp only [buildOwned, buildDeployment, buildService, buildNetworkPolicyWith, hns]
  exact ⟨_, rfl, rfl, rfl⟩

theorem reconcileInner_buildOwned (environment : Environment) (readyReplicas : Option Int32) :
    reconcileInner svc environment readyReplicas =
      (buildOwned svc environment.metricsNs environment.extraNs).map fun owned =>
        [.applyDeployment owned.deployment, .applyService owned.service] ++
          (if environment.policyEnabled then [.applyNetworkPolicy owned.policy] else []) ++
          [.patchStatus
            ⟨(phaseFor svc.spec.replicas (readyReplicas.getD 0)).1,
              (phaseFor svc.spec.replicas (readyReplicas.getD 0)).2⟩] := by
  rw [reconcileInner, buildOwned]
  cases buildDeployment svc with
  | error error => rfl
  | ok deployment =>
      cases buildService svc with
      | error error => rfl
      | ok service =>
          cases buildNetworkPolicyWith svc environment.metricsNs environment.extraNs with
          | error error => rfl
          | ok policy => rfl

/-! ## The labels of the pods -/

theorem ownedLabels_lookup (key : String) :
    (ownedLabels svc)[key]? =
      if "app.kubernetes.io/managed-by" = key then some manager
      else if "app" = key then some svc.name else none := by
  simp [ownedLabels, BTreeMap.collect, BTreeMap.lookup_insert]

theorem selectorLabels_lookup (key : String) :
    (selectorLabels svc)[key]? = if "app" = key then some svc.name else none := by
  simp [selectorLabels, BTreeMap.collect, BTreeMap.lookup_insert]

theorem podLabels_lookup (key : String) :
    (podLabels svc)[key]? =
      if fleetLabel = key then svc.metadata.label fleetLabel else (ownedLabels svc)[key]? := by
  have hfree : (ownedLabels svc)[fleetLabel]? = none := by
    simp [ownedLabels_lookup, fleetLabel]
  cases hlabel : svc.metadata.label fleetLabel with
  | some fleet => simp [podLabels, hlabel, BTreeMap.lookup_insert]
  | none =>
      split
      next hkey => simpa [podLabels, hlabel, ← hkey] using hfree
      next => simp [podLabels, hlabel]

theorem matches_podLabels_iff {wanted : BTreeMap String String}
    (happ : wanted["app"]? = some svc.name)
    (hmanaged : ∀ key value : String, wanted[key]? = some value → key ≠ "app" →
      key = "app.kubernetes.io/managed-by" ∧ value = manager) :
    matchesLabels wanted (podLabels other) = true ↔ svc.name = other.name := by
  have hpods : (podLabels other)["app"]? = some other.name := by
    simp [podLabels_lookup, ownedLabels_lookup, fleetLabel]
  rw [matchesLabels_iff]
  constructor
  · intro hmatches
    have hname := hmatches "app" svc.name happ
    simpa [hpods, eq_comm] using hname
  · intro hname key value hwanted
    by_cases hkey : key = "app"
    · subst hkey
      rw [hpods, ← hname, ← happ, hwanted]
    · obtain ⟨rfl, rfl⟩ := hmanaged key value hwanted hkey
      simp [podLabels_lookup, ownedLabels_lookup, fleetLabel]

theorem ownedLabels_select_iff :
    matchesLabels (ownedLabels svc) (podLabels other) = true ↔ svc.name = other.name := by
  refine matches_podLabels_iff svc other (by simp [ownedLabels_lookup]) ?_
  intro key value hwanted hkey
  rw [ownedLabels_lookup, if_neg (Ne.symm hkey)] at hwanted
  split at hwanted <;> simp_all

theorem selectorLabels_select_iff :
    matchesLabels (selectorLabels svc) (podLabels other) = true ↔ svc.name = other.name := by
  refine matches_podLabels_iff svc other (by simp [selectorLabels_lookup]) ?_
  intro key value hwanted hkey
  rw [selectorLabels_lookup, if_neg (Ne.symm hkey)] at hwanted
  cases hwanted

theorem ownedVllmService_label (fleet : FleetService) (ns : String) (index : Nat)
    (nodeName : String) :
    (ownedVllmService fleet ns index nodeName).metadata.label fleetLabel = some fleet.name := by
  simp [ownedVllmService, ObjectMeta.label, BTreeMap.collect]

theorem fleetLabel_isLabelText : IsLabelText fleetLabel := by
  simp [IsLabelText, fleetLabel, isLabelChar]

theorem fleetSelector_matches_iff {fleet : String} (hfleet : IsLabelText fleet) :
    queryMatches (fleetSelector fleet) (podLabels svc) = true ↔
      svc.metadata.label fleetLabel = some fleet := by
  rw [fleetSelector, queryMatches_equal fleetLabel_isLabelText hfleet, podLabels_lookup, if_pos rfl]

/-! ## Every pair of services -/

/-- Each selector of a service picks the pods of the service of its name; it is
a function of that name, whatever the rest of the service is.  The query of a
fleet picks the pods of the services that carry its label, as its children do. -/
theorem owned_objects_select_own_pods {svc other : VllmService} {ns otherNs : String}
    (hns : svc.metadata.ns = some ns) (hother : other.metadata.ns = some otherNs)
    (metricsNs otherMetricsNs : String) (extraNs otherExtraNs : List String) :
    ∃ owned otherOwned, buildOwned svc metricsNs extraNs = .ok owned ∧
      buildOwned other otherMetricsNs otherExtraNs = .ok otherOwned ∧
      (∀ selector ∈ owned.selectors,
        selector.selects otherOwned.pods = true ↔ svc.name = other.name) ∧
      (svc.name = other.name → owned.selectors = otherOwned.selectors) ∧
      (∀ fleet, IsLabelText fleet →
        (queryMatches (fleetSelector fleet) otherOwned.pods = true ↔
          other.metadata.label fleetLabel = some fleet)) ∧
      ∀ fleet index nodeName, buildOwnedVllmService fleet index nodeName = .ok other →
        other.metadata.label fleetLabel = some fleet.name := by
  obtain ⟨owned, hbuilt, hselectors, -⟩ := buildOwned_spec svc hns metricsNs extraNs
  obtain ⟨otherOwned, hotherBuilt, hotherSelectors, hpods⟩ :=
    buildOwned_spec other hother otherMetricsNs otherExtraNs
  refine ⟨owned, otherOwned, hbuilt, hotherBuilt, ?_, ?_, ?_, ?_⟩
  · intro selector hmem
    rw [hselectors] at hmem
    simp only [List.mem_cons, List.not_mem_nil, or_false, or_self] at hmem
    rw [hpods]
    rcases hmem with rfl | rfl
    · rw [LabelSelector.selects_matchLabels, ownedLabels_select_iff]
    · rw [LabelSelector.selects_matchLabels, selectorLabels_select_iff]
  · intro hname
    rw [hselectors, hotherSelectors]
    simp only [ownedLabels, selectorLabels, hname]
  · intro fleet hfleet
    rw [hpods, fleetSelector_matches_iff other hfleet]
  · intro fleet index nodeName hchild
    rw [buildOwnedVllmService] at hchild
    split at hchild
    · cases hchild
    · injection hchild with hchild
      simp [← hchild, ownedVllmService_label]

end VllmServiceController

namespace Sample

open VllmServiceController

/-- The child of slot 0 after its labels were taken off. -/
def unlabelled : VllmService :=
  { childOn "n" with metadata := { (childOn "n").metadata with labels := none } }

theorem owned_objects_select_own_pods_sample :
    ∃ owned otherOwned, buildOwned (childOn "n") "monitoring" [] = .ok owned ∧
      buildOwned unlabelled "monitoring" ["gateway"] = .ok otherOwned ∧
      (∀ selector ∈ owned.selectors, selector.selects otherOwned.pods = true) ∧
      owned.selectors = otherOwned.selectors ∧
      ¬ queryMatches (fleetSelector "fleet") otherOwned.pods = true := by
  obtain ⟨owned, otherOwned, hbuilt, hother, hselects, hsame, hquery, -⟩ :=
    @owned_objects_select_own_pods (childOn "n") unlabelled "default" "default" rfl rfl
      "monitoring" "monitoring" [] ["gateway"]
  refine ⟨owned, otherOwned, hbuilt, hother, fun selector hmem => (hselects selector hmem).mpr rfl,
    hsame rfl, ?_⟩
  rw [hquery "fleet" (by simp [IsLabelText, isLabelChar])]
  intro hlabel
  cases hlabel

end Sample

end VllmColdstartOperator
