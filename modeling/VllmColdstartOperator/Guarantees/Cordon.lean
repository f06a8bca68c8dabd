import VllmColdstartOperator.FleetController.World

/-!
# A cordon against a preemption notice

The same nodes marked by a cordon, or by a preemption notice, leave the same
healthy candidates and displace the same children, so the two reconciles plan
alike.  They part where a cordon leaves no candidate at all: that reconcile
returns before it plans.
-/

namespace VllmColdstartOperator

open Foundation Std

/-! ## Marking nodes -/

def NodeState.withNotice (state : NodeState) (noticed : Bool) : NodeState :=
  { state with
    status := state.status.map fun status =>
      { status with spot := { status.spot with preemptionNoticeDetected := noticed } } }

def Node.withCordon (node : Node) (cordoned : Bool) : Node :=
  { node with spec := some ⟨some cordoned⟩ }

namespace Snapshot

/-- Exactly the marked nodes are cordoned, and none has a notice. -/
def cordonExactly (snapshot : Snapshot) (marked : String → Bool) : Snapshot :=
  { snapshot with
    states := snapshot.states.map fun state => state.withNotice false
    nodes := snapshot.nodes.map fun nodes =>
      nodes.map fun node => node.withCordon (marked node.name) }

/-- Exactly the marked nodes have a notice, and none is cordoned. -/
def noticeExactly (snapshot : Snapshot) (marked : String → Bool) : Snapshot :=
  { snapshot with
    states := snapshot.states.map fun state => state.withNotice (marked state.name)
    nodes := snapshot.nodes.map fun nodes => nodes.map fun node => node.withCordon false }

end Snapshot

/-! ## What the two reconciles write -/

structure StatusWrite where
  phase : Option String
  placementPhases : Option (List (String × String))
  activeReschedules : Option Int32
  replicas : Option Int32
  readyReplicas : Option Int32
  deriving DecidableEq

def StatusPatch.written : StatusPatch → StatusWrite
  | .full status =>
      { phase := some status.phase
        placementPhases := some (status.placements.map fun placement =>
          (placement.vllmServiceRef, placement.phase))
        activeReschedules := some status.activeReschedules
        replicas := some status.replicas
        readyReplicas := some status.readyReplicas }
  | .message _ _ first => ⟨first.map Prod.fst, none, none, none, none⟩

inductive Write where
  | pin (child : String) (node : Option String)
  | delete (child : String)
  | status (written : StatusWrite)
  deriving DecidableEq

def Call.write : Call → Write
  | .applyChild child => .pin child.name child.spec.nodeName
  | .deleteChild name => .delete name
  | .patchStatus patch => .status patch.written

def writesOf (calls : Except FleetError (List Call)) : List Write :=
  match calls with
  | .ok calls => calls.map Call.write
  | .error _ => []

/-! ## Candidates -/

theorem selectorCandidates_withCordon (nodes : List Node) (selector : BTreeMap String String)
    (byNode : BTreeMap String NodeCandidate) (cordoned : Node → Bool) :
    selectorCandidates (nodes.map fun node => node.withCordon (cordoned node)) selector byNode =
      takeCandidates ((nodes.filter fun node =>
        matchesNodePool node.metadata.labels selector).filter fun node => !cordoned node)
          byNode := by
  rw [selectorCandidates, List.filter_map, List.filter_map, takeCandidates_map]
  · rfl
  · exact fun _ => rfl

/-! ## The two marked snapshots -/

namespace Snapshot

variable {snapshot : Snapshot} {marked : String → Bool}

theorem cordonExactly_cordoned {nodes : List Node} (hnodes : snapshot.nodes = some nodes)
    (name : String) : name ∈ (snapshot.cordonExactly marked).cordoned ↔
      marked name = true ∧ ∃ node ∈ nodes, node.name = name := by
  rw [mem_cordoned, cordonExactly, hnodes]
  simp only [Option.map_some, Option.getD_some, List.mem_map, exists_exists_and_eq_and]
  constructor
  · rintro ⟨node, hnode, hmarked, rfl⟩
    exact ⟨hmarked, node, hnode, rfl⟩
  · rintro ⟨hmarked, node, hnode, rfl⟩
    exact ⟨node, hnode, hmarked, rfl⟩

theorem noticeExactly_cordoned (name : String) :
    name ∉ (snapshot.noticeExactly marked).cordoned := by
  rw [mem_cordoned, noticeExactly]
  rintro ⟨node, hnode, hcordoned, -⟩
  cases hnodes : snapshot.nodes with
  | none => simp [hnodes] at hnode
  | some nodes =>
      rw [hnodes, Option.map_some, Option.getD_some, List.mem_map] at hnode
      obtain ⟨_, -, rfl⟩ := hnode
      cases hcordoned

theorem preemptionNotice_withNotice (state : NodeState) (noticed : Bool) :
    preemptionNoticeDetected (state.withNotice noticed) = (state.status.isSome && noticed) := by
  unfold preemptionNoticeDetected NodeState.withNotice
  cases state.status <;> rfl

theorem cordonExactly_preempted (name : String) :
    name ∉ (snapshot.cordonExactly marked).preempted := by
  rw [mem_preempted, cordonExactly]
  rintro ⟨state, hstate, hnotice, -⟩
  obtain ⟨_, -, rfl⟩ := List.mem_map.mp hstate
  rw [preemptionNotice_withNotice, Bool.and_false] at hnotice
  cases hnotice

theorem noticeExactly_preempted (name : String) :
    name ∈ (snapshot.noticeExactly marked).preempted ↔
      marked name = true ∧ ∃ state ∈ snapshot.states,
        state.status.isSome = true ∧ state.name = name := by
  rw [mem_preempted, noticeExactly]
  simp only [List.mem_map, exists_exists_and_eq_and, preemptionNotice_withNotice,
    Bool.and_eq_true]
  constructor
  · rintro ⟨state, hstate, ⟨hstatus, hmarked⟩, rfl⟩
    exact ⟨hmarked, state, hstate, hstatus, rfl⟩
  · rintro ⟨hmarked, state, hstate, hstatus, rfl⟩
    exact ⟨state, hstate, ⟨hstatus, hmarked⟩, rfl⟩

/-- What the marks are: nodes that report, and each node that reports is listed. -/
structure MarksReporting (snapshot : Snapshot) (nodes : List Node) (marked : String → Bool) :
    Prop where
  read : snapshot.nodes = some nodes
  reported : ∀ state ∈ snapshot.states, state.status.isSome = true →
    ∃ node ∈ nodes, node.name = state.name
  marks : ∀ name, marked name = true →
    ∃ state ∈ snapshot.states, state.status.isSome = true ∧ state.name = name

variable {nodes : List Node}

theorem MarksReporting.cordoned_displaced (hmarks : snapshot.MarksReporting nodes marked)
    (name : String) :
    name ∈ (snapshot.cordonExactly marked).displaced ↔ marked name = true := by
  rw [mem_displaced, cordonExactly_cordoned hmarks.read]
  constructor
  · rintro (hpreempted | ⟨hmarked, -⟩)
    · exact absurd hpreempted (cordonExactly_preempted name)
    · exact hmarked
  · intro hmarked
    obtain ⟨state, hstate, hstatus, rfl⟩ := hmarks.marks name hmarked
    exact .inr ⟨hmarked, hmarks.reported state hstate hstatus⟩

theorem MarksReporting.noticed_displaced (hmarks : snapshot.MarksReporting nodes marked)
    (name : String) :
    name ∈ (snapshot.noticeExactly marked).displaced ↔ marked name = true := by
  rw [mem_displaced, noticeExactly_preempted]
  constructor
  · rintro (⟨hmarked, -⟩ | hcordoned)
    · exact hmarked
    · exact absurd hcordoned (noticeExactly_cordoned name)
  · intro hmarked
    exact .inl ⟨hmarked, hmarks.marks name hmarked⟩

theorem MarksReporting.displaced_eq (hmarks : snapshot.MarksReporting nodes marked) :
    (snapshot.cordonExactly marked).displaced = (snapshot.noticeExactly marked).displaced := by
  apply ExtTreeSet.ext_mem
  intro name
  rw [hmarks.cordoned_displaced, hmarks.noticed_displaced]

theorem candidatesByNode_withNotice (states : List NodeState) (clock : Clock)
    (noticed : NodeState → Bool) :
    candidatesByNode (states.map fun state => state.withNotice (noticed state)) clock =
      candidatesByNode states clock := by
  apply candidatesByNode_map
  · exact fun _ => rfl
  · intro state
    unfold nodeStateToCandidate NodeState.withNotice
    cases state.status <;> rfl

theorem MarksReporting.poolCandidates_eq (hmarks : snapshot.MarksReporting nodes marked)
    (selector : BTreeMap String String) :
    (snapshot.cordonExactly marked).poolCandidates selector =
      ((snapshot.noticeExactly marked).poolCandidates selector).filter
        fun candidate => !marked candidate.name := by
  have hcordoned : ∀ name, name ∈ (snapshot.cordonExactly marked).cordoned ↔
      marked name = true := by
    intro name
    rw [← hmarks.cordoned_displaced, mem_displaced]
    exact (or_iff_right (cordonExactly_preempted name)).symm
  have hbyNode : ∀ noticed : NodeState → Bool,
      candidatesByNode (snapshot.states.map fun state => state.withNotice (noticed state))
        snapshot.clock = candidatesByNode snapshot.states snapshot.clock :=
    candidatesByNode_withNotice snapshot.states snapshot.clock
  unfold poolCandidates
  have hleft : candidatesByNode (snapshot.cordonExactly marked).states
      (snapshot.cordonExactly marked).clock = candidatesByNode snapshot.states snapshot.clock :=
    hbyNode fun _ => false
  have hright : candidatesByNode (snapshot.noticeExactly marked).states
      (snapshot.noticeExactly marked).clock = candidatesByNode snapshot.states snapshot.clock :=
    hbyNode fun state => marked state.name
  rw [hleft, hright]
  by_cases hselector : selector.isEmpty = true
  · rw [if_pos hselector, if_pos hselector, List.filter_filter]
    apply List.filter_congr
    intro candidate _
    rw [Bool.eq_iff_iff]
    simp [hcordoned, noticeExactly_cordoned]
  · rw [if_neg hselector, if_neg hselector]
    have hnodes : (snapshot.cordonExactly marked).nodes.getD [] =
        nodes.map fun node => node.withCordon (marked node.name) := by
      rw [cordonExactly, hmarks.read]
      rfl
    have hnodes' : (snapshot.noticeExactly marked).nodes.getD [] =
        nodes.map fun node => node.withCordon false := by
      rw [noticeExactly, hmarks.read]
      rfl
    rw [hnodes, hnodes', selectorCandidates_withCordon nodes selector _ fun node =>
        marked node.name, selectorCandidates_withCordon nodes selector _ fun _ => false,
      takeCandidates_filter _ (candidatesByNode_filed _ _) fun name => !marked name]
    simp

end Snapshot

/-! ## Planning from the same healthy candidates -/

namespace ReconcileInput

variable {fleet : FleetService} {existing : List VllmService} {left right : Snapshot}

/-- Two reconciles of one fleet and its children that plan from one displaced
set and the same healthy candidates. -/
structure PlansAlike (fleet : FleetService) (existing : List VllmService)
    (left right : Snapshot) : Prop where
  displaced : left.displaced = right.displaced
  healthy : (ReconcileInput.mk fleet left existing).healthyCandidates =
    (ReconcileInput.mk fleet right existing).healthyCandidates

namespace PlansAlike

theorem seesAlike (halike : PlansAlike fleet existing left right) :
    SeesAlike fleet existing left right where
  pinned := fun _ _ _ => by rw [halike.displaced]
  placed := fun _ _ => by rw [halike.displaced]
  healthy := halike.healthy

theorem countP_eq (halike : PlansAlike fleet existing left right)
    (test : PlacementStatus → Bool)
    (htest : ∀ placement : PlacementStatus, test placement.withoutRecord = test placement) :
    (ReconcileInput.mk fleet left existing).placements.countP test =
      (ReconcileInput.mk fleet right existing).placements.countP test := by
  have hcount : ∀ placements : List PlacementStatus, placements.countP test =
      (placements.map PlacementStatus.withoutRecord).countP test := by
    intro placements
    rw [List.countP_map]
    exact List.countP_congr fun placement _ => by rw [Function.comp_apply, htest]
  rw [hcount, halike.seesAlike.placements_eq, ← hcount]

theorem any_eq (halike : PlansAlike fleet existing left right)
    (test : PlacementStatus → Bool)
    (htest : ∀ placement : PlacementStatus, test placement.withoutRecord = test placement) :
    (ReconcileInput.mk fleet left existing).placements.any test =
      (ReconcileInput.mk fleet right existing).placements.any test := by
  have hany : ∀ placements : List PlacementStatus, placements.any test =
      (placements.map PlacementStatus.withoutRecord).any test := by
    intro placements
    rw [List.any_map]
    congr 1
    exact funext fun placement => (htest placement).symm
  rw [hany, halike.seesAlike.placements_eq, ← hany]

theorem written_eq (halike : PlansAlike fleet existing left right) :
    (StatusPatch.full (ReconcileInput.mk fleet left existing).fullStatus).written =
      (StatusPatch.full (ReconcileInput.mk fleet right existing).fullStatus).written := by
  have hphases : ∀ placements : List PlacementStatus,
      placements.map (fun placement => (placement.vllmServiceRef, placement.phase)) =
        (placements.map PlacementStatus.withoutRecord).map fun placement =>
          (placement.vllmServiceRef, placement.phase) := by
    intro placements
    rw [List.map_map]
    rfl
  have hlength := congrArg List.length halike.seesAlike.placements_eq
  rw [List.length_map, List.length_map] at hlength
  have hready := halike.countP_eq (fun placement => placement.phase = "Ready")
    fun _ => rfl
  have hdisplaced : (ReconcileInput.mk fleet left existing).displaced =
      (ReconcileInput.mk fleet right existing).displaced := halike.displaced
  have hactive := halike.countP_eq
    (isMoveInFlight (ReconcileInput.mk fleet right existing).displaced) fun _ => rfl
  have hhold := halike.any_eq (fun placement => placement.phase = "Draining" ∧
    placement.nodeRef ∈ (ReconcileInput.mk fleet right existing).displaced) fun _ => rfl
  simp only [StatusPatch.written, fullStatus, readyReplicas, activeReschedules, drainAndHold,
    hdisplaced]
  rw [hphases, halike.seesAlike.placements_eq, ← hphases, hlength, hready, hactive, hhold]

end PlansAlike

end ReconcileInput

namespace Snapshot

variable {snapshot : Snapshot} {marked : String → Bool} {nodes : List Node}

theorem allocatable_withCordon (hread : snapshot.nodes = some nodes) (gpuRequest : Int32) :
    (snapshot.cordonExactly marked).allocatable gpuRequest =
      (snapshot.noticeExactly marked).allocatable gpuRequest := by
  rw [allocatable, allocatable, cordonExactly, noticeExactly, hread]
  simp only [Option.map_some, List.map_map]
  rfl

theorem MarksReporting.plansAlike (hmarks : snapshot.MarksReporting nodes marked)
    (fleet : FleetService) (existing : List VllmService) :
    ReconcileInput.PlansAlike fleet existing (snapshot.cordonExactly marked)
      (snapshot.noticeExactly marked) where
  displaced := hmarks.displaced_eq
  healthy := by
    have hcandidates : (ReconcileInput.mk fleet (snapshot.cordonExactly marked)
          existing).candidates =
        (ReconcileInput.mk fleet (snapshot.noticeExactly marked) existing).candidates.filter
          fun candidate => !marked candidate.name := by
      rw [ReconcileInput.candidates, ReconcileInput.poolCandidates, hmarks.poolCandidates_eq,
        ReconcileInput.candidates, List.filter_map]
      rfl
    have hallocatable : (snapshot.cordonExactly marked).allocatable =
        (snapshot.noticeExactly marked).allocatable := by
      funext gpuRequest
      exact allocatable_withCordon hmarks.read gpuRequest
    have hkept : ((ReconcileInput.mk fleet (snapshot.noticeExactly marked)
          existing).candidates.filter fun candidate => !marked candidate.name).filter
          (fun candidate => candidate.name ∉ (snapshot.cordonExactly marked).displaced) =
        (ReconcileInput.mk fleet (snapshot.noticeExactly marked) existing).candidates.filter
          fun candidate => candidate.name ∉ (snapshot.noticeExactly marked).displaced := by
      rw [List.filter_filter]
      apply List.filter_congr
      intro candidate _
      have hcordoned := hmarks.cordoned_displaced candidate.name
      have hnoticed := hmarks.noticed_displaced candidate.name
      cases hmarked : marked candidate.name with
      | true => simp [hnoticed, hmarked]
      | false => simp [hcordoned, hnoticed, hmarked]
    rw [ReconcileInput.healthyCandidates, ReconcileInput.healthyCandidates, hcandidates]
    refine (congrArg (List.filter _) hkept).trans ?_
    rw [show (ReconcileInput.mk fleet (snapshot.cordonExactly marked) existing).snapshot.allocatable
      = (snapshot.noticeExactly marked).allocatable from hallocatable]
    rfl

end Snapshot

/-- A reconcile under a cordon writes what it writes under a preemption notice on
the same nodes exactly when no node is a candidate anyway or the cordon leaves a
candidate. -/
theorem cordon_writes_as_notice_iff (fleet : FleetService) (existing : List VllmService)
    (hns : fleet.metadata.ns.isSome = true)
    (hsupported : fleet.spec.placement.strategy.isSupported = true) (snapshot : Snapshot)
    (nodes : List Node) (marked : String → Bool)
    (hmarks : snapshot.MarksReporting nodes marked) :
    writesOf (reconcileInner ⟨fleet, snapshot.cordonExactly marked, existing⟩) =
        writesOf (reconcileInner ⟨fleet, snapshot.noticeExactly marked, existing⟩) ↔
      (snapshot.noticeExactly marked).poolCandidates fleet.spec.nodePool.selector = [] ∨
        ∃ candidate ∈ (snapshot.noticeExactly marked).poolCandidates
          fleet.spec.nodePool.selector, marked candidate.name = false := by
  have halike := hmarks.plansAlike fleet existing
  have hpool := hmarks.poolCandidates_eq fleet.spec.nodePool.selector
  have hleaves : (snapshot.cordonExactly marked).poolCandidates fleet.spec.nodePool.selector ≠ [] ↔
      ∃ candidate ∈ (snapshot.noticeExactly marked).poolCandidates
        fleet.spec.nodePool.selector, marked candidate.name = false := by
    rw [hpool, ne_eq, List.filter_eq_nil_iff]
    simp
  rw [← hleaves]
  by_cases hnotice : (snapshot.noticeExactly marked).poolCandidates
      fleet.spec.nodePool.selector = []
  · have hcordon : (snapshot.cordonExactly marked).poolCandidates
        fleet.spec.nodePool.selector = [] := by
      rw [hpool, hnotice, List.filter_nil]
    simp only [hnotice, true_or, iff_true]
    rw [ReconcileInput.reconcileInner_of_no_candidate
        ⟨fleet, snapshot.cordonExactly marked, existing⟩ hns hsupported hcordon,
      ReconcileInput.reconcileInner_of_no_candidate
        ⟨fleet, snapshot.noticeExactly marked, existing⟩ hns hsupported hnotice]
    rfl
  · have hfullNotice := @ReconcileInput.reconcileInner_of_isFull
      ⟨fleet, snapshot.noticeExactly marked, existing⟩ ⟨hns, hsupported, hnotice⟩
    by_cases hcordon : (snapshot.cordonExactly marked).poolCandidates
        fleet.spec.nodePool.selector = []
    · have hmessage := ReconcileInput.reconcileInner_of_no_candidate
        ⟨fleet, snapshot.cordonExactly marked, existing⟩ hns hsupported hcordon
      simp only [hnotice, hcordon, ne_eq, not_true_eq_false, or_false, iff_false]
      intro hsame
      rw [hmessage, hfullNotice] at hsame
      have hlast := congrArg List.getLast? hsame
      simp [writesOf, Call.write, StatusPatch.written, ReconcileInput.messagePatch] at hlast
    · have hfullCordon := @ReconcileInput.reconcileInner_of_isFull
        ⟨fleet, snapshot.cordonExactly marked, existing⟩ ⟨hns, hsupported, hcordon⟩
      simp only [hnotice, hcordon, ne_eq, not_false_eq_true, or_true, iff_true]
      rw [hfullCordon, hfullNotice, writesOf, writesOf, List.map_append, List.map_append,
        List.map_singleton, List.map_singleton, Call.write, Call.write, halike.written_eq,
        ReconcileInput.childCalls, ReconcileInput.childCalls, halike.seesAlike.slotNodes_eq]
      rfl

namespace Sample

def listedSnapshot (names : List String) : Snapshot :=
  { snapshot names [] with
    nodes := some (names.map fun name => ⟨⟨name, none, "", none, []⟩, none, none⟩) }

theorem listedSnapshot_marks (names : List String) (marked : String → Bool)
    (hmarked : ∀ name, marked name = true → name ∈ names) :
    (listedSnapshot names).MarksReporting
      (names.map fun name => ⟨⟨name, none, "", none, []⟩, none, none⟩) marked where
  read := rfl
  reported := by
    intro state hstate _
    obtain ⟨name, hname, rfl⟩ := List.mem_map.mp hstate
    exact ⟨_, List.mem_map_of_mem hname, rfl⟩
  marks := by
    intro name hname
    exact ⟨nodeState name _, List.mem_map_of_mem (hmarked name hname), rfl, rfl⟩

/-- Of two nodes the one with the child is marked. -/
theorem cordon_writes_as_notice_iff_sample :
    writesOf (reconcileInner ⟨fleetOfOne, (listedSnapshot ["a", "b"]).cordonExactly
        (fun name => name = "a"), [childOn "a"]⟩) =
      writesOf (reconcileInner ⟨fleetOfOne, (listedSnapshot ["a", "b"]).noticeExactly
        (fun name => name = "a"), [childOn "a"]⟩) := by
  apply (cordon_writes_as_notice_iff fleetOfOne [childOn "a"] rfl rfl (listedSnapshot ["a", "b"]) _
    (fun name => name = "a") (listedSnapshot_marks _ _ ?_)).mpr
  · right
    decide
  · intro name hname
    rw [of_decide_eq_true hname]
    decide

/-- The only node, with the child on it: the notice drains and degrades the
fleet, and the cordon leaves a message and a first phase. -/
theorem cordon_counterexample :
    (listedSnapshot ["a"]).MarksReporting [⟨⟨"a", none, "", none, []⟩, none, none⟩]
      (fun name => name = "a") ∧
    writesOf (reconcileInner ⟨fleetOfOne, (listedSnapshot ["a"]).cordonExactly
        (fun name => name = "a"), [childOn "a"]⟩) =
      [.status ⟨some "Placing", none, none, none, none⟩] ∧
    writesOf (reconcileInner ⟨fleetOfOne, (listedSnapshot ["a"]).noticeExactly
        (fun name => name = "a"), [childOn "a"]⟩) =
      [.pin "fleet-0" (some "a"), .status ⟨some "Degraded", some [("fleet-0", "Draining")],
        some 0, some 1, some 0⟩] := by
  refine ⟨listedSnapshot_marks ["a"] _ fun name hname => ?_, by decide, by decide⟩
  rw [of_decide_eq_true hname]
  decide

end Sample

end VllmColdstartOperator
