import VllmColdstartOperator.Guarantees.Selectors

/-!
# Who may call a pod

A NetworkPolicy isolates the pods it selects and admits what its rules name; the
policies that select one pod add up.  The policies built for the services of a
namespace let in, on the serving port, the labelled clients of the service, the
metrics namespace and the extra namespaces.
-/

namespace VllmColdstartOperator

open Foundation Std

/-! ## What policies admit -/

structure PodIdentity where
  ns : String
  labels : BTreeMap String String

/-- The labels of each namespace, which the API server makes carry its name. -/
structure NamespaceLabels where
  labels : String → BTreeMap String String
  named : ∀ ns, (labels ns)["kubernetes.io/metadata.name"]? = some ns

structure Connection where
  source : PodIdentity
  protocol : String
  port : Int32

/-- A peer with only a pod selector stays in the policy's namespace; one with
only a namespace selector takes every pod of the namespaces it selects. -/
def NetworkPolicyPeer.admits (peer : NetworkPolicyPeer) (policyNs : Option String)
    (namespaces : NamespaceLabels) (source : PodIdentity) : Bool :=
  match peer.podSelector, peer.namespaceSelector with
  | some pods, none => some source.ns = policyNs ∧ pods.selects source.labels
  | none, some scopes => scopes.selects (namespaces.labels source.ns)
  | some pods, some scopes =>
      scopes.selects (namespaces.labels source.ns) ∧ pods.selects source.labels
  | none, none => false

def NetworkPolicyPort.admits (opened : NetworkPolicyPort) (connection : Connection) : Bool :=
  opened.protocol = connection.protocol ∧ opened.port = connection.port

/-- An absent list of peers, or of ports, restricts nothing. -/
def NetworkPolicyIngressRule.admits (rule : NetworkPolicyIngressRule) (policyNs : Option String)
    (namespaces : NamespaceLabels) (connection : Connection) : Bool :=
  (rule.peers.isEmpty || rule.peers.any fun peer =>
    peer.admits policyNs namespaces connection.source) &&
  (rule.ports.isEmpty || rule.ports.any fun opened => opened.admits connection)

namespace NetworkPolicy

variable (policy : NetworkPolicy)

def isolates (pod : PodIdentity) : Bool :=
  policy.metadata.ns = some pod.ns ∧ policy.podSelector.selects pod.labels ∧
    "Ingress" ∈ policy.policyTypes

def admits (namespaces : NamespaceLabels) (connection : Connection) : Bool :=
  policy.ingress.any fun rule => rule.admits policy.metadata.ns namespaces connection

end NetworkPolicy

/-- A pod no policy isolates takes every connection. -/
def ingressAdmits (policies : List NetworkPolicy) (namespaces : NamespaceLabels)
    (pod : PodIdentity) (connection : Connection) : Bool :=
  (policies.filter fun policy => policy.isolates pod).isEmpty ||
    (policies.filter fun policy => policy.isolates pod).any fun policy =>
      policy.admits namespaces connection

/-! ## The policies of the services -/

namespace VllmServiceController

def builtPolicies (environment : Environment) (services : List VllmService) :
    List NetworkPolicy :=
  services.filterMap fun service =>
    (buildNetworkPolicyWith service environment.metricsNs environment.extraNs).toOption

/-- A pod of the service's Deployment carries the labels of its template, and
what the cluster adds to them. -/
def IsPodOf (svc : VllmService) (pod : PodIdentity) : Prop :=
  svc.metadata.ns = some pod.ns ∧ matchesLabels (podLabels svc) pod.labels = true

/-- The serving port, from a client of the service, the metrics namespace or one
of the extra ones. -/
def IsIntendedCaller (svc : VllmService) (environment : Environment) (pod : PodIdentity)
    (connection : Connection) : Prop :=
  (connection.protocol = "TCP" ∧ connection.port = 8000) ∧
    (connection.source.ns = pod.ns ∧ connection.source.labels[clientLabel]? = some svc.name ∨
      connection.source.ns = environment.metricsNs ∨
      ∃ entry ∈ (environment.extraIngressNamespaces.getD "").toList.splitOn ',',
        trim entry ≠ [] ∧ connection.source.ns = String.ofList (trim entry))

theorem mem_extraNs_iff (environment : Environment) (ns : String) :
    ns ∈ environment.extraNs ↔
      ∃ entry ∈ (environment.extraIngressNamespaces.getD "").toList.splitOn ',',
        trim entry ≠ [] ∧ ns = String.ofList (trim entry) := by
  simp only [Environment.extraNs, List.mem_map, List.mem_filter, Bool.not_eq_true',
    List.isEmpty_eq_false_iff, ne_eq]
  constructor
  · rintro ⟨name, ⟨⟨entry, hentry, rfl⟩, hne⟩, rfl⟩
    exact ⟨entry, hentry, hne, rfl⟩
  · rintro ⟨entry, hentry, hne, rfl⟩
    exact ⟨trim entry, ⟨⟨entry, hentry, rfl⟩, hne⟩, rfl⟩

variable {svc service : VllmService} {environment : Environment} {policy : NetworkPolicy}
  {namespaces : NamespaceLabels} {pod : PodIdentity} {connection : Connection}

theorem mem_builtPolicies_iff (services : List VllmService) :
    policy ∈ builtPolicies environment services ↔
      ∃ service ∈ services,
        buildNetworkPolicyWith service environment.metricsNs environment.extraNs =
          .ok policy := by
  rw [builtPolicies, List.mem_filterMap]
  refine exists_congr fun service => and_congr_right fun _ => ?_
  cases buildNetworkPolicyWith service environment.metricsNs environment.extraNs with
  | error error => simp [Except.toOption]
  | ok built => simp [Except.toOption]

theorem matchesLabels_single (key value : String) (labels : BTreeMap String String) :
    matchesLabels (BTreeMap.collect [(key, value)]) labels = true ↔ labels[key]? = some value := by
  rw [matchesLabels_iff]
  exact BTreeMap.forall_lookup_single

theorem isolates_iff (hpod : IsPodOf svc pod)
    (hbuilt : buildNetworkPolicyWith service environment.metricsNs environment.extraNs =
      .ok policy) :
    policy.isolates pod = true ↔ service.metadata.ns = some pod.ns ∧ service.name = svc.name := by
  have happ : pod.labels["app"]? = some svc.name := by
    apply matchesLabels_iff.mp hpod.2
    simp [podLabels_lookup, ownedLabels_lookup, fleetLabel]
  unfold buildNetworkPolicyWith at hbuilt
  split at hbuilt
  next => cases hbuilt
  next ns hns =>
    injection hbuilt with hbuilt
    subst hbuilt
    simp only [NetworkPolicy.isolates, ownedMeta, LabelSelector.selects_matchLabels,
      selectorLabels, matchesLabels_single, happ, hns, List.mem_singleton, decide_eq_true_eq,
      Option.some.injEq, and_true]
    exact and_congr_right fun _ => eq_comm

theorem clients_admits_iff {policyNs name : String} {source : PodIdentity} :
    NetworkPolicyPeer.admits
        { podSelector := some { matchLabels := some (BTreeMap.collect [(clientLabel, name)]) } }
        (some policyNs) namespaces source = true ↔
      source.ns = policyNs ∧ source.labels[clientLabel]? = some name := by
  simp [NetworkPolicyPeer.admits, LabelSelector.selects_matchLabels, matchesLabels_single]

theorem namespace_admits_iff {policyNs : Option String} {ns : String} {source : PodIdentity} :
    NetworkPolicyPeer.admits
        { namespaceSelector := some {
            matchLabels := some (BTreeMap.collect [("kubernetes.io/metadata.name", ns)]) } }
        policyNs namespaces source = true ↔ source.ns = ns := by
  simp [NetworkPolicyPeer.admits, LabelSelector.selects_matchLabels, matchesLabels_single,
    namespaces.named]

theorem listed_admits_iff {policyNs : Option String} {names : List String}
    {source : PodIdentity} :
    NetworkPolicyPeer.admits
        { namespaceSelector := some {
            matchExpressions := some [⟨"kubernetes.io/metadata.name", "In", names⟩] } }
        policyNs namespaces source = true ↔ source.ns ∈ names := by
  simp [NetworkPolicyPeer.admits, LabelSelector.selects, LabelSelectorRequirement.selects,
    namespaces.named]

theorem ports_admit_iff :
    ([⟨"TCP", 8000⟩] : List NetworkPolicyPort).any (fun opened => opened.admits connection) =
        true ↔
      connection.protocol = "TCP" ∧ connection.port = 8000 := by
  simp only [List.any_cons, List.any_nil, Bool.or_false, NetworkPolicyPort.admits,
    decide_eq_true_eq]
  exact and_congr eq_comm eq_comm

theorem admits_iff
    (hbuilt : buildNetworkPolicyWith service environment.metricsNs environment.extraNs =
      .ok policy) :
    policy.admits namespaces connection = true ↔
      (connection.protocol = "TCP" ∧ connection.port = 8000) ∧
        (service.metadata.ns = some connection.source.ns ∧
            connection.source.labels[clientLabel]? = some service.name ∨
          connection.source.ns = environment.metricsNs ∨
          connection.source.ns ∈ environment.extraNs) := by
  unfold buildNetworkPolicyWith at hbuilt
  split at hbuilt
  next => cases hbuilt
  next ns hns =>
    injection hbuilt with hbuilt
    subst hbuilt
    have hextra : ((if environment.extraNs.isEmpty then [] else [({
          namespaceSelector := some {
            matchExpressions := some
              [⟨"kubernetes.io/metadata.name", "In", environment.extraNs⟩] } } :
            NetworkPolicyPeer)]).any fun peer =>
          peer.admits (some ns) namespaces connection.source) = true ↔
        connection.source.ns ∈ environment.extraNs := by
      cases environment.extraNs with
      | nil => simp
      | cons first rest =>
          simp only [List.isEmpty_cons, Bool.false_eq_true, if_false, List.any_cons,
            List.any_nil, Bool.or_false, listed_admits_iff]
    rw [NetworkPolicy.admits, List.any_cons, List.any_nil, Bool.or_false,
      NetworkPolicyIngressRule.admits]
    simp only [Bool.and_eq_true, List.cons_append, List.isEmpty_cons, Bool.false_or,
      List.nil_append, ownedMeta, ports_admit_iff]
    rw [List.any_cons, List.any_cons, Bool.or_eq_true, Bool.or_eq_true, hextra,
      clients_admits_iff, namespace_admits_iff, hns, Option.some.injEq, eq_comm (a := ns),
      and_comm]

/-! ## The callers of a pod -/

/-- Of the policies built for any services, a pod of one of them takes exactly the
connections of its intended callers. -/
theorem ingressAdmits_iff_intendedCaller (services : List VllmService)
    (environment : Environment) (namespaces : NamespaceLabels) (svc : VllmService)
    (hmem : svc ∈ services) (pod : PodIdentity) (hpod : IsPodOf svc pod)
    (connection : Connection) :
    ingressAdmits (builtPolicies environment services) namespaces pod connection = true ↔
      IsIntendedCaller svc environment pod connection := by
  have hisolating : ∀ policy, policy ∈ (builtPolicies environment services).filter
      (fun policy => policy.isolates pod) ↔
        ∃ service ∈ services, buildNetworkPolicyWith service environment.metricsNs
            environment.extraNs = .ok policy ∧
          service.metadata.ns = some pod.ns ∧ service.name = svc.name := by
    intro policy
    rw [List.mem_filter, mem_builtPolicies_iff]
    constructor
    · rintro ⟨⟨service, hservice, hbuilt⟩, hisolates⟩
      exact ⟨service, hservice, hbuilt, (isolates_iff hpod hbuilt).mp hisolates⟩
    · rintro ⟨service, hservice, hbuilt, hnamed⟩
      exact ⟨⟨service, hservice, hbuilt⟩, (isolates_iff hpod hbuilt).mpr hnamed⟩
  obtain ⟨own, hown⟩ : ∃ policy, buildNetworkPolicyWith svc environment.metricsNs
      environment.extraNs = .ok policy := by
    rw [buildNetworkPolicyWith, hpod.1]
    exact ⟨_, rfl⟩
  have hnonempty : ((builtPolicies environment services).filter
      fun policy => policy.isolates pod).isEmpty = false := by
    rw [List.isEmpty_eq_false_iff]
    exact List.ne_nil_of_mem ((hisolating own).mpr ⟨svc, hmem, hown, hpod.1, rfl⟩)
  rw [ingressAdmits, hnonempty, Bool.false_or, List.any_eq_true]
  simp only [hisolating, IsIntendedCaller, ← mem_extraNs_iff]
  constructor
  · rintro ⟨policy, ⟨service, -, hbuilt, hns, hname⟩, hadmits⟩
    have hcaller := (admits_iff hbuilt).mp hadmits
    rwa [hns, hname, Option.some.injEq, eq_comm (a := pod.ns)] at hcaller
  · intro hcaller
    refine ⟨own, ⟨svc, hmem, hown, hpod.1, rfl⟩, (admits_iff hown).mpr ?_⟩
    rwa [hpod.1, Option.some.injEq, eq_comm (a := pod.ns)]

end VllmServiceController

namespace Sample

open VllmServiceController

def namespaces : NamespaceLabels where
  labels := fun ns => BTreeMap.collect [("kubernetes.io/metadata.name", ns)]
  named := fun ns => by simp [BTreeMap.collect]

def gatewayOpen : Environment where
  metricsNamespace := none
  networkPolicyEnabled := none
  extraIngressNamespaces := some " gateway ,,"

def callFrom (ns : String) : Connection := ⟨⟨ns, ∅⟩, "TCP", 8000⟩

theorem ingressAdmits_iff_intendedCaller_sample :
    ingressAdmits (builtPolicies gatewayOpen [childOn "n"]) namespaces
        ⟨"default", podLabels (childOn "n")⟩ (callFrom "gateway") = true ∧
      ¬ ingressAdmits (builtPolicies gatewayOpen [childOn "n"]) namespaces
        ⟨"default", podLabels (childOn "n")⟩ (callFrom "default") = true := by
  have hpod : IsPodOf (childOn "n") ⟨"default", podLabels (childOn "n")⟩ :=
    ⟨rfl, matchesLabels_iff.mpr fun _ _ hlabel => hlabel⟩
  have hiff := fun ns => ingressAdmits_iff_intendedCaller [childOn "n"] gatewayOpen namespaces
    (childOn "n") (List.mem_singleton.mpr rfl) _ hpod (callFrom ns)
  have hentries : (gatewayOpen.extraIngressNamespaces.getD "").toList.splitOn ',' =
      [" gateway ".toList, [], []] := by decide +kernel
  rw [hiff, hiff, IsIntendedCaller, IsIntendedCaller, hentries]
  constructor
  · exact ⟨⟨rfl, rfl⟩, .inr (.inr ⟨_, List.mem_cons_self, by decide +kernel, by decide +kernel⟩)⟩
  · rintro ⟨-, ⟨-, hclient⟩ | hmetrics | ⟨entry, hentry, hne, hsame⟩⟩
    · simp [callFrom] at hclient
    · exact absurd hmetrics (by decide +kernel)
    · simp only [List.mem_cons, List.not_mem_nil, or_false, or_self] at hentry
      rcases hentry with rfl | rfl
      · exact absurd hsame (by decide +kernel)
      · exact hne rfl

end Sample

end VllmColdstartOperator
