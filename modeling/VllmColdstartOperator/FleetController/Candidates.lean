import VllmColdstartOperator.FleetPlanning

/-!
# What a reconcile reads, and the candidates it builds

`Snapshot` is everything one fleet reconcile reads from the cluster besides the
FleetService and its children.  A failed read of the Nodes or of the
cluster-wide services is `none`, each with its own rule.
-/

namespace VllmColdstartOperator

open Foundation Std

structure Snapshot where
  states : List NodeState
  clock : Clock
  nodes : Option (List Node)
  allServices : Option (List VllmService)

/-! ## From node states to candidates -/

/-- An unparseable timestamp reads as absent. -/
def ageSecs (observedAt : Option String) (clock : Clock) : Option Int := do
  let text ← observedAt
  let parsed ← clock.parseFromRfc3339 text
  some (numSeconds (clock.now - parsed))

def nodeStateToCandidate (state : NodeState) (clock : Clock) : Option NodeCandidate := do
  let status ← state.status
  some {
    name := state.name
    ownReplicas := 0
    warmth := status.warmth
    gpuUtilization := status.gpuUtilization
    activeServiceCount := status.activeServiceCount
    kvCacheHitRate := status.kvCacheHitRate
    kvCacheHitRateAgeSecs := ageSecs status.kvCacheHitRateObservedAt clock
    tokensPerJoule := status.tokensPerJoule
    tokensPerJouleAgeSecs := ageSecs status.tokensPerJouleObservedAt clock }

def cmpNodeState (left right : NodeState) : Ordering :=
  (compare left.name right.name).then
    (presentAbove compare left.metadata.ns right.metadata.ns)

/-- One candidate per name, from the least namespace that has a status. -/
def candidatesByNode (states : List NodeState) (clock : Clock) :
    BTreeMap String NodeCandidate :=
  (states.insertionSort fun left right => (cmpNodeState left right).isLE).foldl
    (fun out state =>
      match nodeStateToCandidate state clock with
      | some candidate => out.insertIfNew candidate.name candidate
      | none => out) ∅

/-- A Node the selector admits that has no NodeState with a status. -/
def bareCandidate (name : String) : NodeCandidate where
  name := name
  ownReplicas := 0
  warmth := .cold
  gpuUtilization := none
  activeServiceCount := none
  kvCacheHitRate := none
  kvCacheHitRateAgeSecs := none
  tokensPerJoule := none
  tokensPerJouleAgeSecs := none

/-- Each node takes its own candidate out of the map. -/
def takeCandidates : List Node → BTreeMap String NodeCandidate → List NodeCandidate
  | [], _ => []
  | node :: nodes, byNode =>
      (byNode[node.name]?).getD (bareCandidate node.name) ::
        takeCandidates nodes (byNode.erase node.name)

def selectorCandidates (nodes : List Node) (selector : BTreeMap String String)
    (byNode : BTreeMap String NodeCandidate) : List NodeCandidate :=
  takeCandidates
    ((nodes.filter fun node => matchesNodePool node.metadata.labels selector).filter
      fun node => !node.isUnschedulable) byNode

def cordonedNodes (nodes : List Node) : BTreeSet String :=
  BTreeSet.collect ((nodes.filter Node.isUnschedulable).map Node.name)

def preemptionNoticeDetected (state : NodeState) : Bool :=
  (state.status.map fun status => status.spot.preemptionNoticeDetected).getD false

/-- A node that publishes an allocatable map without the key has no GPU; one
with no map at all, or a quantity that is no integer, is unknown. -/
def allocatableGpus (node : Node) : Option Int :=
  match node.status.bind NodeStatus.allocatable with
  | none => none
  | some allocatable =>
      match allocatable["nvidia.com/gpu"]? with
      | none => some 0
      | some quantity => parseI64 quantity

/-! ## One candidate for each name -/

theorem nodeStateToCandidate_name {state : NodeState} {clock : Clock} {candidate : NodeCandidate}
    (hcandidate : nodeStateToCandidate state clock = some candidate) :
    candidate.name = state.name := by
  obtain ⟨status, -, heq⟩ := Option.bind_eq_some_iff.mp hcandidate
  cases heq
  rfl

def FiledByName (byNode : BTreeMap String NodeCandidate) : Prop :=
  ∀ (name : String) (candidate : NodeCandidate),
    byNode[name]? = some candidate → candidate.name = name

theorem FiledByName.erase {byNode : BTreeMap String NodeCandidate} (hfiled : FiledByName byNode)
    (erased : String) : FiledByName (byNode.erase erased) := by
  intro name candidate hlookup
  rw [BTreeMap.lookup_erase] at hlookup
  split at hlookup
  · cases hlookup
  · exact hfiled name candidate hlookup

def candidateNamed (name : String) (clock : Clock) (state : NodeState) : Option NodeCandidate :=
  if state.name = name then nodeStateToCandidate state clock else none

theorem candidateNamed_eq_some {name : String} {clock : Clock} {state : NodeState}
    {candidate : NodeCandidate} :
    candidateNamed name clock state = some candidate ↔
      state.name = name ∧ nodeStateToCandidate state clock = some candidate := by
  simp [candidateNamed]

private theorem foldl_insertIfNew (clock : Clock) (name : String) (states : List NodeState)
    (out : BTreeMap String NodeCandidate) :
    (states.foldl (fun out state =>
        match nodeStateToCandidate state clock with
        | some candidate => out.insertIfNew candidate.name candidate
        | none => out) out)[name]? =
      (out[name]?).or (states.findSome? (candidateNamed name clock)) := by
  induction states generalizing out with
  | nil => simp
  | cons state states ih =>
      rw [List.foldl_cons, ih, List.findSome?_cons]
      cases hcandidate : nodeStateToCandidate state clock with
      | none => simp [candidateNamed, hcandidate]
      | some candidate =>
          dsimp only
          rw [BTreeMap.lookup_insertIfNew, nodeStateToCandidate_name hcandidate]
          by_cases hname : state.name = name
          · cases out[name]? <;> simp [candidateNamed, hname, hcandidate]
          · simp [candidateNamed, hname]

theorem candidatesByNode_findSome (states : List NodeState) (clock : Clock) (name : String) :
    (candidatesByNode states clock)[name]? =
      (states.insertionSort fun left right => (cmpNodeState left right).isLE).findSome?
        (candidateNamed name clock) := by
  rw [candidatesByNode, foldl_insertIfNew, ExtTreeMap.getElem?_empty, Option.none_or]

theorem candidatesByNode_filed (states : List NodeState) (clock : Clock) :
    FiledByName (candidatesByNode states clock) := by
  intro name candidate hlookup
  rw [candidatesByNode_findSome] at hlookup
  obtain ⟨state, -, hcandidate⟩ := List.exists_of_findSome?_eq_some hlookup
  obtain ⟨hname, hcandidate⟩ := candidateNamed_eq_some.mp hcandidate
  exact (nodeStateToCandidate_name hcandidate).trans hname

theorem nodeStateToCandidate_isSome (state : NodeState) (clock : Clock) :
    (nodeStateToCandidate state clock).isSome = state.status.isSome := by
  cases hstatus : state.status <;> simp [nodeStateToCandidate, hstatus]

theorem candidatesByNode_isSome (states : List NodeState) (clock : Clock) (name : String) :
    ((candidatesByNode states clock)[name]?).isSome = true ↔
      ∃ state ∈ states, state.name = name ∧ state.status.isSome = true := by
  rw [candidatesByNode_findSome, List.findSome?_isSome_iff]
  simp only [List.mem_insertionSort, candidateNamed]
  refine exists_congr fun state => and_congr_right fun _ => ?_
  by_cases hname : state.name = name <;> simp [hname, nodeStateToCandidate_isSome]

theorem candidatesByNode_map (states : List NodeState) (clock : Clock)
    {change : NodeState → NodeState} (hmetadata : ∀ state, (change state).metadata = state.metadata)
    (hcandidate : ∀ state,
      nodeStateToCandidate (change state) clock = nodeStateToCandidate state clock) :
    candidatesByNode (states.map change) clock = candidatesByNode states clock := by
  have hsorted : (states.map change).insertionSort
      (fun left right => (cmpNodeState left right).isLE) =
      (states.insertionSort fun left right => (cmpNodeState left right).isLE).map change := by
    refine (List.map_insertionSort _ _ change states fun left _ right _ => ?_).symm
    simp only [cmpNodeState, NodeState.name, hmetadata]
  rw [candidatesByNode, hsorted, List.foldl_map, candidatesByNode]
  simp only [hcandidate]

instance cmpNodeState_trans : TransCmp cmpNodeState :=
  haveI : TransCmp fun left right : NodeState => compare left.name right.name :=
    trans_on compare NodeState.name
  haveI : TransCmp fun left right : NodeState =>
      presentAbove compare left.metadata.ns right.metadata.ns :=
    trans_on (presentAbove compare) fun state : NodeState => state.metadata.ns
  inferInstanceAs (TransCmp (compareLex (fun left right : NodeState =>
    compare left.name right.name) fun left right : NodeState =>
      presentAbove compare left.metadata.ns right.metadata.ns))

theorem candidatesByNode_lookup (states : List NodeState) (clock : Clock) (name : String) :
    (candidatesByNode states clock)[name]? =
      (candidatesByNode (states.filter fun state => state.name = name) clock)[name]? := by
  rw [candidatesByNode_findSome, candidatesByNode_findSome, ← filter_insertionSort]
  induction states.insertionSort fun left right => (cmpNodeState left right).isLE with
  | nil => rfl
  | cons state states ih =>
      by_cases hname : state.name = name
      · simp [hname, List.findSome?_cons, ih]
      · simp [hname, candidateNamed, ih]

theorem takeCandidates_congr {nodes : List Node} {left right : BTreeMap String NodeCandidate}
    (hsame : ∀ node ∈ nodes, left[node.name]? = right[node.name]?) :
    takeCandidates nodes left = takeCandidates nodes right := by
  induction nodes generalizing left right with
  | nil => rfl
  | cons node nodes ih =>
      rw [takeCandidates, takeCandidates, hsame node List.mem_cons_self]
      congr 1
      apply ih
      intro other hother
      rw [BTreeMap.lookup_erase, BTreeMap.lookup_erase,
        hsame other (List.mem_cons_of_mem _ hother)]

theorem takeCandidates_map (nodes : List Node) (byNode : BTreeMap String NodeCandidate)
    {change : Node → Node} (hname : ∀ node, (change node).name = node.name) :
    takeCandidates (nodes.map change) byNode = takeCandidates nodes byNode := by
  induction nodes generalizing byNode with
  | nil => rfl
  | cons node nodes ih =>
      rw [List.map_cons, takeCandidates, takeCandidates, hname, ih]

theorem FiledByName.getD_name {byNode : BTreeMap String NodeCandidate}
    (hfiled : FiledByName byNode) (name : String) :
    ((byNode[name]?).getD (bareCandidate name)).name = name := by
  cases hlookup : byNode[name]? with
  | none => rfl
  | some candidate => exact hfiled _ _ hlookup

theorem takeCandidates_names (nodes : List Node) {byNode : BTreeMap String NodeCandidate}
    (hfiled : FiledByName byNode) :
    (takeCandidates nodes byNode).map NodeCandidate.name = nodes.map Node.name := by
  induction nodes generalizing byNode with
  | nil => rfl
  | cons node nodes ih =>
      rw [takeCandidates, List.map_cons, List.map_cons, hfiled.getD_name, ih (hfiled.erase _)]

theorem takeCandidates_filter (nodes : List Node) {byNode : BTreeMap String NodeCandidate}
    (hfiled : FiledByName byNode) (keep : String → Bool) :
    (takeCandidates nodes byNode).filter (fun candidate => keep candidate.name) =
      takeCandidates (nodes.filter fun node => keep node.name) byNode := by
  induction nodes generalizing byNode with
  | nil => rfl
  | cons node nodes ih =>
      rw [takeCandidates, List.filter_cons, hfiled.getD_name, List.filter_cons,
        ih (hfiled.erase _)]
      by_cases hkeep : keep node.name = true
      · rw [if_pos hkeep, if_pos hkeep, takeCandidates]
      · rw [if_neg hkeep, if_neg hkeep]
        apply takeCandidates_congr
        intro other hother
        rw [BTreeMap.lookup_erase, if_neg]
        intro hsame
        rw [List.mem_filter, ← hsame] at hother
        exact hkeep hother.2

theorem FiledByName.names_nodup {byNode : BTreeMap String NodeCandidate}
    (hfiled : FiledByName byNode) :
    ((byNode.toList.map Prod.snd).map NodeCandidate.name).Nodup := by
  have hkeys : (byNode.toList.map Prod.snd).map NodeCandidate.name =
      byNode.toList.map Prod.fst := by
    rw [List.map_map]
    refine List.map_congr_left fun pair hpair => ?_
    exact hfiled pair.1 pair.2 (ExtTreeMap.mem_toList_iff_getElem?_eq_some.mp hpair)
  rw [hkeys]
  exact BTreeMap.keys_nodup byNode

/-! ## The snapshot of a reconcile -/

namespace Snapshot

def cordoned (snapshot : Snapshot) : BTreeSet String :=
  cordonedNodes (snapshot.nodes.getD [])

def preempted (snapshot : Snapshot) : BTreeSet String :=
  BTreeSet.collect ((snapshot.states.filter preemptionNoticeDetected).map NodeState.name)

/-- The only trigger of a reschedule. -/
def displaced (snapshot : Snapshot) : BTreeSet String :=
  snapshot.preempted ∪ snapshot.cordoned

def allocatable (snapshot : Snapshot) (gpuRequest : Int32) :
    BTreeMap String (Option Int) :=
  match snapshot.nodes with
  | some nodes =>
      if gpuRequest > 0 then
        BTreeMap.collect (nodes.map fun node => (node.name, allocatableGpus node))
      else ∅
  | none => ∅

def poolCandidates (snapshot : Snapshot) (selector : BTreeMap String String) :
    List NodeCandidate :=
  let byNode := candidatesByNode snapshot.states snapshot.clock
  if selector.isEmpty then
    (byNode.toList.map Prod.snd).filter fun candidate =>
      candidate.name ∉ snapshot.cordoned
  else selectorCandidates (snapshot.nodes.getD []) selector byNode

theorem mem_cordoned (snapshot : Snapshot) (name : String) :
    name ∈ snapshot.cordoned ↔
      ∃ node ∈ snapshot.nodes.getD [], node.isUnschedulable = true ∧ node.name = name := by
  simp only [cordoned, cordonedNodes, BTreeSet.mem_collect, List.mem_map, List.mem_filter,
    and_assoc]

theorem mem_preempted (snapshot : Snapshot) (name : String) :
    name ∈ snapshot.preempted ↔
      ∃ state ∈ snapshot.states,
        preemptionNoticeDetected state = true ∧ state.name = name := by
  simp only [preempted, BTreeSet.mem_collect, List.mem_map, List.mem_filter, and_assoc]

/-- A notice on some NodeState of that name, or a cordon in a Node list that was
read. -/
def IsDisplaced (snapshot : Snapshot) (name : String) : Prop :=
  (∃ state ∈ snapshot.states, preemptionNoticeDetected state = true ∧ state.name = name) ∨
    ∃ nodes, snapshot.nodes = some nodes ∧
      ∃ node ∈ nodes, node.isUnschedulable = true ∧ node.name = name

theorem mem_displaced (snapshot : Snapshot) (name : String) :
    name ∈ snapshot.displaced ↔ name ∈ snapshot.preempted ∨ name ∈ snapshot.cordoned :=
  ExtTreeSet.mem_union_iff

theorem isDisplaced_iff (snapshot : Snapshot) (name : String) :
    snapshot.IsDisplaced name ↔ name ∈ snapshot.displaced := by
  rw [mem_displaced, mem_preempted, mem_cordoned, IsDisplaced]
  cases snapshot.nodes with
  | none => simp
  | some nodes => simp

/-- The names of the candidates: with no selector those the NodeStates with a status
report, less the cordoned ones, and otherwise those of the Nodes it admits. -/
theorem mem_poolNames (snapshot : Snapshot) (selector : BTreeMap String String) (name : String) :
    name ∈ (snapshot.poolCandidates selector).map NodeCandidate.name ↔
      if selector.isEmpty then
        (∃ state ∈ snapshot.states, state.name = name ∧ state.status.isSome = true) ∧
          name ∉ snapshot.cordoned
      else name ∈ (((snapshot.nodes.getD []).filter fun node =>
        matchesNodePool node.metadata.labels selector).filter fun node =>
          !node.isUnschedulable).map Node.name := by
  have hfiled := candidatesByNode_filed snapshot.states snapshot.clock
  unfold poolCandidates
  by_cases hselector : selector.isEmpty = true
  · rw [if_pos hselector, if_pos hselector, ← candidatesByNode_isSome _ snapshot.clock]
    simp only [List.mem_map, List.mem_filter, decide_eq_true_eq, Prod.exists,
      ExtTreeMap.mem_toList_iff_getElem?_eq_some, Option.isSome_iff_exists]
    constructor
    · rintro ⟨candidate, ⟨⟨key, _, hlookup, rfl⟩, hcordoned⟩, rfl⟩
      exact ⟨⟨_, hfiled key _ hlookup ▸ hlookup⟩, hcordoned⟩
    · rintro ⟨⟨candidate, hlookup⟩, hcordoned⟩
      exact ⟨candidate, ⟨⟨name, candidate, hlookup, rfl⟩, by rwa [hfiled name _ hlookup]⟩,
        hfiled name _ hlookup⟩
  · rw [if_neg hselector, if_neg hselector, selectorCandidates, takeCandidates_names _ hfiled]

theorem poolCandidates_nodup (snapshot : Snapshot)
    (hnodes : ∀ nodes, snapshot.nodes = some nodes → (nodes.map Node.name).Nodup)
    (selector : BTreeMap String String) :
    ((snapshot.poolCandidates selector).map NodeCandidate.name).Nodup := by
  have hfiled := candidatesByNode_filed snapshot.states snapshot.clock
  unfold poolCandidates
  by_cases hselector : selector.isEmpty = true
  · rw [if_pos hselector]
    exact (List.filter_sublist.map _).nodup hfiled.names_nodup
  · rw [if_neg hselector, selectorCandidates, takeCandidates_names _ hfiled]
    refine ((List.filter_sublist.trans List.filter_sublist).map _).nodup ?_
    cases hread : snapshot.nodes with
    | none => simp
    | some nodes => exact hnodes nodes hread

end Snapshot

end VllmColdstartOperator
