import VllmColdstartOperator.Guarantees.Spread
import VllmColdstartOperator.FleetController.Positions

/-!
# Where a new pin may go

Every node a reconcile chooses is a healthy candidate's, so each filter on the
way to that list is a fact about it: the pool, the notices and cordons, and the
capacity the fleet asks for.  A child that is created or repinned may also be
given the node of an object of another name that is read as its slot, which no
filter has seen.  A NodeState with no Node passes the last filter, so what
capacity promises depends on the plan not choosing such a node.
-/

namespace VllmColdstartOperator

open Foundation Std

/-! ## The pool -/

def Node.Carries (node : Node) (selector : BTreeMap String String) : Prop :=
  ∀ key value, selector[key]? = some value → node.metadata.label key = some value

theorem matchesNodePool_carries {node : Node} {selector : BTreeMap String String}
    (hselector : selector.isEmpty = false)
    (hmatches : matchesNodePool node.metadata.labels selector = true) :
    node.Carries selector := by
  intro key value hkey
  unfold matchesNodePool at hmatches
  rw [hselector] at hmatches
  cases hlabels : node.metadata.labels with
  | none => simp [hlabels] at hmatches
  | some labels =>
      rw [hlabels, if_neg Bool.false_ne_true, List.all_eq_true] at hmatches
      have hpair := hmatches (key, value)
        (ExtTreeMap.mem_toList_iff_getElem?_eq_some.mpr hkey)
      rw [ObjectMeta.label, hlabels, Option.bind_some]
      simpa using hpair

/-- A node the pool admits: a Node the selector describes, or with no selector a
node some NodeState reports. -/
def Snapshot.InPool (snapshot : Snapshot) (selector : BTreeMap String String)
    (name : String) : Prop :=
  if selector.isEmpty then
    ∃ state ∈ snapshot.states, state.name = name ∧ state.status.isSome = true
  else
    ∃ nodes, snapshot.nodes = some nodes ∧ ∃ node ∈ nodes, node.name = name ∧
      node.Carries selector ∧ node.isUnschedulable = false

theorem Snapshot.inPool_of_candidate {snapshot : Snapshot} {selector : BTreeMap String String}
    {candidate : NodeCandidate} (hmem : candidate ∈ snapshot.poolCandidates selector) :
    snapshot.InPool selector candidate.name := by
  have hname := (snapshot.mem_poolNames selector candidate.name).mp (List.mem_map_of_mem hmem)
  unfold Snapshot.InPool
  by_cases hselector : selector.isEmpty = true
  · rw [if_pos hselector] at hname ⊢
    exact hname.1
  · rw [if_neg hselector] at hname ⊢
    obtain ⟨node, hnode, heq⟩ := List.mem_map.mp hname
    simp only [List.mem_filter, Bool.not_eq_true'] at hnode
    obtain ⟨⟨hread, hmatches⟩, hschedulable⟩ := hnode
    cases hnodes : snapshot.nodes with
    | none => simp [hnodes] at hread
    | some nodes =>
        rw [hnodes] at hread
        exact ⟨nodes, rfl, node, hread, heq,
          matchesNodePool_carries (by simpa using hselector) hmatches, hschedulable⟩

namespace ReconcileInput

variable {input : ReconcileInput}

/-- A node the reconcile chooses: for a slot it reads no node of, or to move one to. -/
def Chooses (input : ReconcileInput) (node : String) : Prop :=
  ∃ slot ∈ input.writtenPins, input.current[slot.1]? ≠ some slot.2 ∧ slot.2 = node

theorem chooses_isFull {node : String} (hpinned : input.Chooses node) :
    input.IsFull := by
  by_contra hfull
  obtain ⟨slot, hslot, -⟩ := hpinned
  simp [writtenPins_of_not_isFull hfull] at hslot

theorem chooses_candidate {node : String} (hpinned : input.Chooses node) :
    ∃ candidate ∈ input.healthyCandidates, candidate.name = node := by
  have hfull := chooses_isFull hpinned
  obtain ⟨⟨index, node⟩, hslot, hchanged, rfl⟩ := hpinned
  rw [writtenPins_of_isFull hfull] at hslot
  rcases pin_cases ((mem_slotNodes index node).mp hslot).2 with
    ⟨-, htarget⟩ | ⟨-, hkept⟩ | ⟨-, -, hfresh⟩
  · exact target_mem htarget
  · exact absurd hkept hchanged
  · exact fresh_mem hfresh

theorem mem_newPins (node : String) : node ∈ input.newPins ↔ input.Chooses node := by
  simp only [newPins, Chooses, List.mem_map, List.mem_append, List.mem_filter,
    decide_eq_true_eq]
  refine exists_congr fun slot => ?_
  rw [← and_or_left, and_assoc]
  refine and_congr_right fun _ => and_congr_left fun _ => ?_
  cases hcurrent : input.current[slot.1]? with
  | none => simp
  | some before => simp

theorem candidate_inPool {candidate : NodeCandidate} (hmem : candidate ∈ input.candidates) :
    input.snapshot.InPool input.fleet.spec.nodePool.selector candidate.name := by
  obtain ⟨pooled, hpooled, rfl⟩ := List.mem_map.mp hmem
  exact @Snapshot.inPool_of_candidate _ _ pooled hpooled

theorem isFull_nodes_read (hfull : input.IsFull)
    (hselector : input.fleet.spec.nodePool.selector.isEmpty = false) :
    input.snapshot.nodes.isSome = true := by
  obtain ⟨-, -, hcandidates⟩ := hfull
  cases hnodes : input.snapshot.nodes with
  | some nodes => rfl
  | none =>
      simp [poolCandidates, Snapshot.poolCandidates, hselector, hnodes, selectorCandidates,
        takeCandidates] at hcandidates

end ReconcileInput

/-! ## What a reconcile creates or repins -/

namespace ReconcileInput

variable {input : ReconcileInput}

theorem applied_child {calls : List Call} (hcalls : reconcileInner input = .ok calls)
    {child : VllmService} (happlied : Call.applyChild child ∈ calls) :
    input.IsFull ∧ ∃ slot ∈ input.slotNodes, child = input.child slot := by
  by_cases hfull : input.IsFull
  · refine ⟨hfull, ?_⟩
    rw [reconcileInner_of_isFull hfull, Except.ok.injEq] at hcalls
    rw [← hcalls, childCalls] at happlied
    simp only [List.mem_append, List.mem_map, List.mem_singleton, applyCall, deleteCall,
      Call.applyChild.injEq, reduceCtorEq, and_false, exists_false, or_false] at happlied
    obtain ⟨slot, hslot, hchild⟩ := happlied
    exact ⟨slot, hslot, hchild.symm⟩
  · rcases reconcileInner_of_not_isFull hfull with ⟨error, heq⟩ | ⟨text, heq⟩
    · rw [heq] at hcalls
      cases hcalls
    · rw [heq, Except.ok.injEq] at hcalls
      rw [← hcalls] at happlied
      simp at happlied

theorem isFull_applies (hfull : input.IsFull) {slot : Nat × String}
    (hslot : slot ∈ input.slotNodes) :
    ∃ calls, reconcileInner input = .ok calls ∧ Call.applyChild (input.child slot) ∈ calls := by
  refine ⟨_, reconcileInner_of_isFull hfull, List.mem_append_left _ ?_⟩
  exact List.mem_append_left _ (List.mem_map_of_mem hslot)

def ReadOn (input : ReconcileInput) (name node : String) : Prop :=
  ∃ object ∈ input.existing, object.name = name ∧ object.spec.nodeName = some node

/-- The reconcile applies a child of that name on that node, where none was read. -/
def Repins (input : ReconcileInput) (name node : String) : Prop :=
  ∃ calls child, reconcileInner input = .ok calls ∧ .applyChild child ∈ calls ∧
    child.name = name ∧ child.spec.nodeName = some node ∧ ¬ input.ReadOn name node

/-- Every child created or repinned is on a node that is neither noticed nor
cordoned and inside the pool; with a selector and no Node list there is none. -/
structure RepinsSafely (input : ReconcileInput) : Prop where
  safe : ∀ name node, input.Repins name node → ¬ input.snapshot.IsDisplaced node ∧
    input.snapshot.InPool input.fleet.spec.nodePool.selector node
  unread : input.snapshot.nodes = none → input.fleet.spec.nodePool.selector.isEmpty = false →
    ∀ name node, ¬ input.Repins name node

/-- Where the node read for a slot in range is that of an object of another name,
it is in the pool, or displaced and moved off: some candidate is healthy, and
fewer displaced slots than the budget come before. -/
def StraysSafe (input : ReconcileInput) : Prop :=
  input.IsFull → ∀ index < input.desired, ∀ node, input.current[index]? = some node →
    ¬ input.ReadOn (childName input.fleet.name index) node →
      (¬ input.snapshot.IsDisplaced node →
        input.snapshot.InPool input.fleet.spec.nodePool.selector node) ∧
      (input.snapshot.IsDisplaced node →
        input.healthyCandidates ≠ [] ∧ input.displacedBelow index < input.budget)

theorem healthy_safe {candidate : NodeCandidate} (hmem : candidate ∈ input.healthyCandidates) :
    ¬ input.snapshot.IsDisplaced candidate.name ∧
      input.snapshot.InPool input.fleet.spec.nodePool.selector candidate.name := by
  obtain ⟨hcandidate, hdisplaced⟩ := mem_healthyCandidates hmem
  rw [Snapshot.isDisplaced_iff]
  exact ⟨hdisplaced, candidate_inPool hcandidate⟩

/-- A slot keeps the displaced node read for it unless the moves reach it. -/
theorem moved_of_displaced (hfull : input.IsFull) {index : Nat} {node : String}
    (hcurrent : input.current[index]? = some node) (hdisplaced : input.snapshot.IsDisplaced node) :
    index ∈ input.movedSlots ↔
      input.healthyCandidates ≠ [] ∧ input.displacedBelow index < input.budget := by
  have honDisplaced : input.onDisplaced index = true :=
    (onDisplaced_iff index).mpr ⟨node, hcurrent, (Snapshot.isDisplaced_iff _ _).mp hdisplaced⟩
  rw [mem_movedSlots_iff]
  constructor
  · rintro ⟨htarget, -, hfew⟩
    obtain ⟨best, hbest⟩ := Option.isSome_iff_exists.mp htarget
    exact ⟨healthy_of_target hbest, hfew⟩
  · rintro ⟨hhealthy, hfew⟩
    obtain ⟨best, hbest⟩ := target_isSome hfull.2.1 hhealthy
    exact ⟨Option.isSome_iff_exists.mpr ⟨best, hbest⟩, honDisplaced, hfew⟩

theorem repins_of_kept (hfull : input.IsFull) {index : Nat} {node : String}
    (hrange : index < input.desired) (hcurrent : input.current[index]? = some node)
    (hread : ¬ input.ReadOn (childName input.fleet.name index) node)
    (hkept : index ∉ input.movedSlots) :
    input.Repins (childName input.fleet.name index) node := by
  have hslot := (mem_slotNodes index node).mpr ⟨hrange, pin_of_kept hkept hcurrent⟩
  obtain ⟨calls, hcalls, happlied⟩ := isFull_applies hfull hslot
  exact ⟨calls, _, hcalls, happlied, rfl, rfl, hread⟩

end ReconcileInput

/-- Every child created or repinned is on a safe node of the pool exactly when no
object of another name brings a slot in range one that is not and stays. -/
theorem repins_safely_iff (input : ReconcileInput) : input.RepinsSafely ↔ input.StraysSafe := by
  constructor
  · rintro ⟨hsafe, -⟩ hfull index hrange node hcurrent hread
    constructor
    · intro hundisplaced
      refine (hsafe _ node (ReconcileInput.repins_of_kept hfull hrange hcurrent hread ?_)).2
      intro hmoved
      obtain ⟨⟨held, hheld, hdisplaced⟩, -⟩ := ReconcileInput.of_mem_movedSlots hmoved
      obtain rfl := Option.some.inj (hcurrent.symm.trans hheld)
      exact hundisplaced ((Snapshot.isDisplaced_iff _ _).mpr hdisplaced)
    · intro hdisplaced
      rw [← ReconcileInput.moved_of_displaced hfull hcurrent hdisplaced]
      by_contra hkept
      have hrepins := ReconcileInput.repins_of_kept hfull hrange hcurrent hread hkept
      exact (hsafe _ node hrepins).1 hdisplaced
  · intro hstrays
    constructor
    · rintro _ node ⟨calls, child, hcalls, happlied, rfl, hnode, hread⟩
      obtain ⟨hfull, ⟨index, target⟩, hslot, rfl⟩ := ReconcileInput.applied_child hcalls happlied
      obtain rfl : target = node := Option.some.inj hnode
      obtain ⟨hrange, hpin⟩ := (ReconcileInput.mem_slotNodes index target).mp hslot
      rcases ReconcileInput.pin_cases hpin with ⟨-, htarget⟩ | ⟨hkept, hcurrent⟩ | ⟨-, -, hfresh⟩
      · obtain ⟨candidate, hmem, rfl⟩ := ReconcileInput.target_mem htarget
        exact ReconcileInput.healthy_safe hmem
      · obtain ⟨hpool, hmoves⟩ := hstrays hfull index hrange target hcurrent hread
        have hundisplaced : ¬ input.snapshot.IsDisplaced target := fun hdisplaced =>
          hkept ((ReconcileInput.moved_of_displaced hfull hcurrent hdisplaced).mpr
            (hmoves hdisplaced))
        exact ⟨hundisplaced, hpool hundisplaced⟩
      · obtain ⟨candidate, hmem, rfl⟩ := ReconcileInput.fresh_mem hfresh
        exact ReconcileInput.healthy_safe hmem
    · rintro hunread hselector name node ⟨calls, child, hcalls, happlied, -⟩
      have hfull := (ReconcileInput.applied_child hcalls happlied).1
      have hread := ReconcileInput.isFull_nodes_read hfull hselector
      simp [hunread] at hread

namespace Sample

/-- A labelled service of another name, on a node that no NodeState reports. -/
def besideWeb : ReconcileInput where
  fleet := fleetOfOne
  snapshot := snapshot ["n"] []
  existing := [{ childOn "outside" with
    metadata := { (childOn "outside").metadata with name := "web-0" } }]

/-- The child of slot 0 is created on the node of the other service. -/
theorem repins_safely_counterexample :
    besideWeb.slotNodes = [(0, "outside")] ∧
      ¬ besideWeb.snapshot.InPool besideWeb.fleet.spec.nodePool.selector "outside" ∧
      ¬ besideWeb.RepinsSafely := by
  have hslots : besideWeb.slotNodes = [(0, "outside")] := by decide +kernel
  have houtside :
      ¬ besideWeb.snapshot.InPool besideWeb.fleet.spec.nodePool.selector "outside" := by
    rintro ⟨state, hstate, hname, -⟩
    rw [List.mem_singleton.mp hstate] at hname
    exact absurd hname (by decide)
  refine ⟨hslots, houtside, fun hsafely => houtside (hsafely.safe "fleet-0" "outside" ?_).2⟩
  have hslot : (0, "outside") ∈ besideWeb.slotNodes := hslots ▸ List.mem_singleton_self _
  obtain ⟨calls, hcalls, happlied⟩ :=
    @ReconcileInput.isFull_applies besideWeb ⟨rfl, rfl, by decide +kernel⟩ _ hslot
  refine ⟨calls, _, hcalls, happlied, by decide, rfl, ?_⟩
  rintro ⟨object, hobject, hname, -⟩
  rw [List.mem_singleton.mp hobject] at hname
  exact absurd hname (by decide)

end Sample

/-! ## Capacity -/

/-- The Node reports that many GPUs, or does not say how many. -/
def Node.MayHold (node : Node) (gpuRequest : Int32) : Prop :=
  match node.status.bind NodeStatus.allocatable with
  | none => True
  | some allocatable => ∃ quantity, allocatable["nvidia.com/gpu"]? = some quantity ∧
      ∀ gpus, parseI64 quantity = some gpus → gpuRequest.toInt ≤ gpus

theorem mayHold_of_capacity {node : Node} {gpuRequest : Int32} (hrequest : 0 < gpuRequest)
    (hcapacity : hasCapacityFor (allocatableGpus node) gpuRequest = true) :
    node.MayHold gpuRequest := by
  have hpositive : ¬ gpuRequest ≤ 0 := by
    intro hle
    have hlow := Int32.lt_iff_toInt_lt.mp hrequest
    have hhigh := Int32.le_iff_toInt_le.mp hle
    omega
  unfold hasCapacityFor allocatableGpus at hcapacity
  rw [if_neg hpositive] at hcapacity
  unfold Node.MayHold
  cases hallocatable : node.status.bind NodeStatus.allocatable with
  | none => trivial
  | some allocatable =>
      simp only [hallocatable] at hcapacity ⊢
      cases hquantity : allocatable["nvidia.com/gpu"]? with
      | none =>
          have hzero := Int32.lt_iff_toInt_lt.mp hrequest
          simp only [hquantity, ge_iff_le, decide_eq_true_eq] at hcapacity
          exact absurd hcapacity (Int.not_le.mpr hzero)
      | some quantity =>
          refine ⟨quantity, rfl, fun gpus hgpus => ?_⟩
          simpa [hquantity, hgpus] using hcapacity

namespace ReconcileInput

variable {input : ReconcileInput} {nodes : List Node}

/-- Every newly pinned node is listed and may hold a replica. -/
def CapacityHolds (input : ReconcileInput) (nodes : List Node) : Prop :=
  ∀ name, input.Chooses name →
    ∃ node ∈ nodes, node.name = name ∧ node.MayHold input.gpuRequest

/-- The strategy ranks no node first that has no Node object, and the planned
slots fit on the other nodes before they reach one. -/
def StaleNodesUnchosen (input : ReconcileInput) (nodes : List Node) : Prop :=
  input.IsFull → ∀ stale ∈ input.healthyCandidates,
    (∀ node ∈ nodes, node.name ≠ stale.name) →
      (input.moveCount = 0 ∨ input.target ≠ some stale.name) ∧
      input.missing.length ≤ room input.healthyNames input.existingPins stale.name
        (yieldsTie input.strategy input.horizonSecs input.healthyCandidates
          input.existingPins stale.name) (input.existingPins stale.name)

theorem mayHold_of_healthy (hread : input.snapshot.nodes = some nodes)
    (hunique : (nodes.map Node.name).Nodup) (hrequest : 0 < input.gpuRequest)
    {candidate : NodeCandidate} (hmem : candidate ∈ input.healthyCandidates) {node : Node}
    (hnode : node ∈ nodes) (hname : node.name = candidate.name) :
    node.MayHold input.gpuRequest := by
  have hcapacity := (List.mem_filter.mp hmem).2
  have hlookup : (input.snapshot.allocatable input.gpuRequest)[candidate.name]? =
      some (allocatableGpus node) := by
    rw [Snapshot.allocatable, hread]
    simp only [gt_iff_lt, hrequest, if_true]
    apply BTreeMap.lookup_collect_of_unique
    · rw [← hname]
      exact List.mem_map_of_mem hnode
    · intro other hother
      obtain ⟨found, hfound, heq⟩ := List.mem_map.mp hother
      obtain ⟨hsame, rfl⟩ := Prod.mk.inj heq
      rw [List.inj_on_of_nodup_map hunique hfound hnode (hsame.trans hname.symm)]
  rw [hlookup, Option.join_some] at hcapacity
  exact mayHold_of_capacity hrequest hcapacity

theorem capacityHolds_iff_listed (hread : input.snapshot.nodes = some nodes)
    (hunique : (nodes.map Node.name).Nodup) (hrequest : 0 < input.gpuRequest) :
    input.CapacityHolds nodes ↔
      ∀ name ∈ input.newPins, ∃ node ∈ nodes, node.name = name := by
  constructor
  · intro hholds name hmem
    obtain ⟨node, hnode, hname, -⟩ := hholds name ((mem_newPins name).mp hmem)
    exact ⟨node, hnode, hname⟩
  · intro hlisted name hpinned
    obtain ⟨node, hnode, hname⟩ := hlisted name ((mem_newPins name).mpr hpinned)
    obtain ⟨candidate, hmem, rfl⟩ := chooses_candidate hpinned
    exact ⟨node, hnode, hname, mayHold_of_healthy hread hunique hrequest hmem hnode hname⟩

/-- The planner leaves a healthy node out exactly when the slots fit before it. -/
theorem not_mem_fresh_iff
    (hnodes : ∀ nodes, input.snapshot.nodes = some nodes → (nodes.map Node.name).Nodup)
    (hslots : ∀ (index : Nat) (node : String),
      input.current[index]? = some node → index < 2 ^ 31 - 1)
    (hfull : input.IsFull) {candidate : NodeCandidate}
    (hmem : candidate ∈ input.healthyCandidates) :
    candidate.name ∉ input.fresh ↔
      input.missing.length ≤ room input.healthyNames input.existingPins candidate.name
        (yieldsTie input.strategy input.horizonSecs input.healthyCandidates
          input.existingPins candidate.name) (input.existingPins candidate.name) := by
  have hcounts := healthy_countsOwn hnodes hslots
  have hname : candidate.name ∈ input.healthyCandidates.map NodeCandidate.name :=
    List.mem_map_of_mem hmem
  have heligible : candidate.name ∈ input.healthyNames := List.mem_toFinset.mpr hname
  have hlength := fresh_length hfull.2.1 (List.ne_nil_of_mem hmem)
  have hspreads : Spreads input.healthyNames input.existingPins input.fresh := by
    rw [fresh_eq]
    exact hcounts.planPicks_spreads le_rfl
  have hties : SettlesTies input.healthyNames input.existingPins input.fresh candidate.name
      (yieldsTie input.strategy input.horizonSecs input.healthyCandidates
        input.existingPins candidate.name) := by
    rw [fresh_eq]
    exact planPicks_settlesTies hcounts.nodup candidate.name
  rw [← hlength, ← count_le_iff_le_room heligible hspreads hties le_rfl,
    ← List.count_eq_zero]
  omega

end ReconcileInput

open ReconcileInput in
/-- With the Node list read, every new pin is on a listed node with capacity
exactly when the plan chooses no node that has a NodeState but no Node. -/
theorem capacity_of_new_pins_iff (input : ReconcileInput) (nodes : List Node)
    (hrequest : 0 < input.gpuRequest) (hread : input.snapshot.nodes = some nodes)
    (hunique : (nodes.map Node.name).Nodup)
    (hslots : ∀ (index : Nat) (node : String),
      input.current[index]? = some node → index < 2 ^ 31 - 1) :
    input.CapacityHolds nodes ↔ input.StaleNodesUnchosen nodes := by
  have hnodes : ∀ other, input.snapshot.nodes = some other → (other.map Node.name).Nodup := by
    intro other hother
    rw [hread, Option.some.injEq] at hother
    exact hother ▸ hunique
  rw [capacityHolds_iff_listed hread hunique hrequest]
  constructor
  · intro hlisted hfull stale hmem hstale
    have hunpinned : stale.name ∉ input.newPins := by
      intro hpinned
      obtain ⟨node, hnode, hname⟩ := hlisted stale.name hpinned
      exact hstale node hnode hname
    have hhealthy := List.ne_nil_of_mem hmem
    obtain ⟨target, htarget⟩ := target_isSome hfull.2.1 hhealthy
    rw [newPins_eq hfull htarget hhealthy, List.mem_append, not_or, List.mem_replicate] at hunpinned
    refine ⟨?_, (not_mem_fresh_iff hnodes hslots hfull hmem).mp hunpinned.2⟩
    by_contra hchosen
    simp only [not_or, ne_eq, not_not] at hchosen
    rw [htarget, Option.some.injEq] at hchosen
    exact hunpinned.1 ⟨hchosen.1, hchosen.2.symm⟩
  · intro hunchosen name hmem
    by_contra hstale
    simp only [not_exists, not_and] at hstale
    have hpinned := (mem_newPins name).mp hmem
    have hfull := chooses_isFull hpinned
    obtain ⟨candidate, hcandidate, rfl⟩ := chooses_candidate hpinned
    obtain ⟨hmoves, hroom⟩ := hunchosen hfull candidate hcandidate hstale
    have hhealthy := List.ne_nil_of_mem hcandidate
    obtain ⟨target, htarget⟩ := target_isSome hfull.2.1 hhealthy
    rw [newPins_eq hfull htarget hhealthy, List.mem_append, List.mem_replicate] at hmem
    rcases hmem with ⟨hmoved, rfl⟩ | hfresh
    · rcases hmoves with hzero | hother
      · exact hmoved hzero
      · exact hother htarget
    · exact (not_mem_fresh_iff hnodes hslots hfull hcandidate).mpr hroom hfresh

namespace Sample

def staleInput : ReconcileInput :=
  empty.input metadata
    (round { spec 1 1 1 with template := ⟨none, [], none, none, 1, "/health", "image", none, none⟩ }
      (snapshot ["ghost"] []) [])

theorem staleInput_slots (index : Nat) (node : String)
    (hcurrent : staleInput.current[index]? = some node) : index < 2 ^ 31 - 1 := by
  have hmem := BTreeMap.mem_of_lookup_collect hcurrent
  have hpins : staleInput.existing.filterMap slotPin = [] := by decide
  rw [hpins] at hmem
  cases hmem

theorem capacity_of_new_pins_iff_sample :
    staleInput.CapacityHolds [] ↔ staleInput.StaleNodesUnchosen [] :=
  capacity_of_new_pins_iff staleInput [] (by decide) rfl List.nodup_nil staleInput_slots

/-- A replica is pinned to a node of which no Node was listed. -/
theorem capacity_of_new_pins_counterexample :
    0 < staleInput.gpuRequest ∧ staleInput.snapshot.nodes = some [] ∧
      staleInput.Chooses "ghost" ∧ ¬ staleInput.CapacityHolds [] := by
  have hpinned : staleInput.Chooses "ghost" :=
    (ReconcileInput.mem_newPins "ghost").mp (by decide)
  refine ⟨by decide, rfl, hpinned, fun hholds => ?_⟩
  obtain ⟨node, hnode, -⟩ := hholds "ghost" hpinned
  cases hnode

end Sample

end VllmColdstartOperator
