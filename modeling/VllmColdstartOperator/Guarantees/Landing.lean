import VllmColdstartOperator.Guarantees.Census
import VllmColdstartOperator.Guarantees.Eligibility
import VllmColdstartOperator.Foundation.Labels
import VllmColdstartOperator.VllmServiceController.Objects

/-!
# Where the pod of a new pin can run

The planner chooses a Node by its name, and the pod is held to that choice by a
label: the name becomes the value its node selector wants of the hostname label.
The pod can run on the chosen Node, and nowhere else, as far as that label
tells the Nodes apart by their names.
-/

namespace VllmColdstartOperator

open Foundation Std

open VllmServiceController (hostnameLabel buildDeployment podTemplate)

/-! ## One wanted label -/

theorem matchesNodePool_iff {node : Node} {selector : BTreeMap String String}
    (hselector : selector.isEmpty = false) :
    matchesNodePool node.metadata.labels selector = true ↔ node.Carries selector := by
  constructor
  · exact matchesNodePool_carries hselector
  · intro hcarries
    unfold matchesNodePool
    rw [hselector]
    cases hlabels : node.metadata.labels with
    | none =>
        have hempty : selector = ∅ := by
          refine ExtTreeMap.ext_getElem? fun key => ?_
          rw [ExtTreeMap.getElem?_empty]
          cases hwanted : selector[key]? with
          | none => rfl
          | some value =>
              have hlabel := hcarries key value hwanted
              rw [ObjectMeta.label, hlabels] at hlabel
              cases hlabel
        rw [hempty, ExtTreeMap.isEmpty_empty] at hselector
        cases hselector
    | some labels =>
        simp only [Bool.false_eq_true, if_false]
        apply List.all_eq_true.mpr
        intro pair hpair
        have hlabel := hcarries pair.1 pair.2 (ExtTreeMap.mem_toList_iff_getElem?_eq_some.mp hpair)
        rw [ObjectMeta.label, hlabels, Option.bind_some] at hlabel
        simpa using hlabel

theorem carries_single {node : Node} {key value : String} :
    node.Carries (BTreeMap.collect [(key, value)]) ↔ node.metadata.label key = some value :=
  BTreeMap.forall_lookup_single

/-! ## From the plan to the pod template -/

/-- The Nodes the pods of a Deployment may run on, as the pool filter reads its
node selector. -/
def Deployment.runsOn (deployment : Deployment) (node : Node) : Bool :=
  matchesNodePool node.metadata.labels (deployment.spec.template.spec.nodeSelector.getD ∅)

/-- Of the Nodes listed, the one of that name and no other. -/
def Deployment.LandsOn (deployment : Deployment) (nodes : List Node) (name : String) : Prop :=
  ∀ node ∈ nodes, deployment.runsOn node = true ↔ node.name = name

theorem runsOn_iff {service : VllmService} {deployment : Deployment} {name : String}
    (hbuilt : buildDeployment service = .ok deployment)
    (hname : service.spec.nodeName = some name) (node : Node) :
    deployment.runsOn node = true ↔ node.metadata.label hostnameLabel = some name := by
  have hselector : deployment.spec.template.spec.nodeSelector =
      some (BTreeMap.collect [(hostnameLabel, name)]) := by
    unfold buildDeployment at hbuilt
    split at hbuilt
    next => cases hbuilt
    next ns hns =>
      injection hbuilt with hbuilt
      subst hbuilt
      rw [podTemplate, VllmServiceController.nodeSelector, hname]
      rfl
  have hwanted : (BTreeMap.collect [(hostnameLabel, name)]).isEmpty = false := by
    simp [BTreeMap.collect]
  rw [Deployment.runsOn, hselector, Option.getD_some, matchesNodePool_iff hwanted, carries_single]

/-- The node a reconcile chooses for a child is that of a listed Node.  The pod of
any child it applies can run on the Node of that name and nowhere else exactly when
that Node's hostname label is its name and no other Node carries that value. -/
theorem lands_on_chosen_iff (input : ReconcileInput) (nodes : List Node) (calls : List Call)
    (child : VllmService) (name : String) (hread : input.snapshot.nodes = some nodes)
    (hselector : input.fleet.spec.nodePool.selector.isEmpty = false)
    (hcalls : reconcileInner input = .ok calls) (happlied : Call.applyChild child ∈ calls)
    (hpinned : child.spec.nodeName = some name) :
    ∃ deployment, buildDeployment child = .ok deployment ∧
      ((∀ slot, slotPin child = some slot → input.current[slot.1]? ≠ some name) →
        ∃ node ∈ nodes, node.name = name) ∧
      (deployment.LandsOn nodes name ↔
        ∀ node ∈ nodes, node.metadata.label hostnameLabel = some name ↔ node.name = name) := by
  obtain ⟨hfull, slot, hslot, rfl⟩ := ReconcileInput.applied_child hcalls happlied
  rw [ReconcileInput.child_nodeName, Option.some.injEq] at hpinned
  obtain ⟨ns, hns⟩ := Option.isSome_iff_exists.mp hfull.1
  obtain ⟨deployment, hbuilt⟩ : ∃ deployment,
      buildDeployment (input.child slot) = .ok deployment := by
    simp [buildDeployment, ReconcileInput.child, ownedVllmService]
  refine ⟨deployment, hbuilt, fun hnew => ?_, forall₂_congr fun other _ => ?_⟩
  · have hchanged : input.current[slot.1]? ≠ some slot.2 := by
      rw [hpinned]
      refine hnew slot (slotPin_of_named ?_ (ReconcileInput.child_name slot) rfl)
      exact ReconcileInput.listedSlots_le (List.mem_append_left _ hslot)
    have hchosen : input.Chooses slot.2 :=
      ⟨slot, (ReconcileInput.writtenPins_of_isFull hfull).symm ▸ hslot, hchanged, rfl⟩
    obtain ⟨candidate, hcandidate, hname⟩ := ReconcileInput.chooses_candidate hchosen
    have hpool := (ReconcileInput.healthy_safe hcandidate).2
    rw [Snapshot.InPool, hselector, if_neg Bool.false_ne_true, hname, hpinned] at hpool
    obtain ⟨listed, hlisted, node, hnode, hname, -⟩ := hpool
    rw [hread, Option.some.injEq] at hlisted
    subst hlisted
    exact ⟨node, hnode, hname⟩
  · rw [runsOn_iff hbuilt (ReconcileInput.child_nodeName slot), hpinned]

namespace Sample

def poolNode (name hostname : String) : Node where
  metadata := ⟨name, none, "", some (BTreeMap.collect [("pool", "gpu"), (hostnameLabel, hostname)]),
    []⟩
  spec := none
  status := none

def onPool (node : Node) : ReconcileInput where
  fleet := ⟨metadata, { spec 1 1 1 with nodePool := ⟨BTreeMap.collect [("pool", "gpu")]⟩ }, none⟩
  snapshot := { snapshot [] [] with nodes := some [node] }
  existing := []

theorem onPool_calls {node : Node} (hslots : (onPool node).slotNodes = [(0, "n")])
    (hpool : (onPool node).poolCandidates ≠ []) :
    ∃ calls, reconcileInner (onPool node) = .ok calls ∧
      Call.applyChild ((onPool node).child (0, "n")) ∈ calls := by
  rw [ReconcileInput.reconcileInner_of_isFull ⟨rfl, rfl, hpool⟩, ReconcileInput.childCalls, hslots]
  exact ⟨_, rfl, List.mem_cons_self⟩

theorem lands_on_chosen_iff_sample :
    ∃ deployment, buildDeployment ((onPool (poolNode "n" "n")).child (0, "n")) = .ok deployment ∧
      deployment.LandsOn [poolNode "n" "n"] "n" := by
  obtain ⟨calls, hcalls, happlied⟩ := @onPool_calls (poolNode "n" "n") (by decide +kernel)
    (by decide +kernel)
  obtain ⟨deployment, hbuilt, -, hlands⟩ := lands_on_chosen_iff (onPool (poolNode "n" "n"))
    [poolNode "n" "n"] calls _ "n" rfl (by decide +kernel) hcalls happlied rfl
  refine ⟨deployment, hbuilt, hlands.mpr fun node hnode => ?_⟩
  rw [List.mem_singleton.mp hnode]
  exact iff_of_true (by decide +kernel) rfl

/-- The pod of a replica planned on a Node whose hostname is not its name can run
nowhere. -/
theorem lands_on_chosen_counterexample :
    ∃ calls deployment, reconcileInner (onPool (poolNode "n" "host-7")) = .ok calls ∧
      Call.applyChild ((onPool (poolNode "n" "host-7")).child (0, "n")) ∈ calls ∧
      (onPool (poolNode "n" "host-7")).current[0]? ≠ some "n" ∧
      buildDeployment ((onPool (poolNode "n" "host-7")).child (0, "n")) = .ok deployment ∧
      ¬ deployment.LandsOn [poolNode "n" "host-7"] "n" := by
  obtain ⟨calls, hcalls, happlied⟩ := @onPool_calls (poolNode "n" "host-7") (by decide +kernel)
    (by decide +kernel)
  refine ⟨calls, _, hcalls, happlied, by decide +kernel, rfl, fun hlands => ?_⟩
  have hruns := (hlands _ (List.mem_singleton.mpr rfl)).mpr rfl
  exact absurd hruns (by decide +kernel)

end Sample

end VllmColdstartOperator
