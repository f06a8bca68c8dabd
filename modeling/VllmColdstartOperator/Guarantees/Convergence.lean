import VllmColdstartOperator.Foundation.Runs
import VllmColdstartOperator.Guarantees.Census
import VllmColdstartOperator.Guarantees.DecidedOn
import VllmColdstartOperator.Guarantees.ScaleDown

/-!
# Reconciling a frozen cluster

Surplus children wait for their counter and go; a slot that has no child or is on
a displaced node is settled once and for all by the reconcile that pins it; with
the pins at rest a phase needs three more reconciles and a record one.  After
that a reconcile writes what it read.
-/

namespace VllmColdstartOperator

open Foundation Std

/-! ## The same cluster at another time -/

/-- Two rounds of one spec and one cluster; the clock may differ. -/
structure Round.SameCluster (fleetName : String) (left right : Round) : Prop where
  spec : left.spec = right.spec
  states : left.snapshot.states = right.snapshot.states
  nodes : left.snapshot.nodes = right.snapshot.nodes
  ready : ∀ index, left.ready fleetName index = right.ready fleetName index

theorem Snapshot.mem_candidateNames {left right : Snapshot} (hstates : left.states = right.states)
    (hnodes : left.nodes = right.nodes) (selector : BTreeMap String String) (name : String) :
    name ∈ (left.poolCandidates selector).map NodeCandidate.name ↔
      name ∈ (right.poolCandidates selector).map NodeCandidate.name := by
  have hcordoned : left.cordoned = right.cordoned := by rw [cordoned, hnodes, cordoned]
  rw [mem_poolNames, mem_poolNames, hcordoned, hstates, hnodes]

namespace Round.SameCluster

variable {left right : Round} {metadata : ObjectMeta}
  (hsame : left.SameCluster metadata.name right)

include hsame

theorem displaced : left.snapshot.displaced = right.snapshot.displaced := by
  rw [Snapshot.displaced, Snapshot.preempted, Snapshot.cordoned, hsame.states, hsame.nodes]
  rfl

theorem isFull_iff : left.IsFull metadata ↔ right.IsFull metadata := by
  have hempty : left.snapshot.poolCandidates left.spec.nodePool.selector = [] ↔
      right.snapshot.poolCandidates right.spec.nodePool.selector = [] := by
    rw [hsame.spec, ← List.map_eq_nil_iff (f := NodeCandidate.name),
      ← List.map_eq_nil_iff (f := NodeCandidate.name) (l := right.snapshot.poolCandidates _),
      List.eq_nil_iff_forall_not_mem, List.eq_nil_iff_forall_not_mem]
    simp only [Snapshot.mem_candidateNames hsame.states hsame.nodes]
  rw [IsFull, IsFull, hsame.spec, ← hsame.spec, ne_eq, hempty, hsame.spec]

end Round.SameCluster

/-! ## A reconcile that plans nothing -/

namespace ReconcileInput

variable {input next : ReconcileInput}

theorem fleetPhaseFor_ne_empty (desired ready : Int32) (drainAndHold : Bool) :
    fleetPhaseFor desired ready drainAndHold ≠ "" := by
  unfold fleetPhaseFor
  repeat' split
  all_goals decide

def stopMessage (input : ReconcileInput) : String :=
  if input.strategy.isSupported then input.noCandidateMessage else unsupportedMessage

theorem reconcileInner_stopped (hns : input.fleet.metadata.ns.isSome = true)
    (hfull : ¬ input.IsFull) :
    reconcileInner input = .ok [.patchStatus (input.messagePatch input.stopMessage)] := by
  obtain ⟨ns, heq⟩ := Option.isSome_iff_exists.mp hns
  cases hsupported : input.strategy.isSupported with
  | false => simp [reconcileInner, heq, hsupported, stopMessage]
  | true =>
      have hnone : input.poolCandidates = [] := by
        by_contra hne
        exact hfull ⟨hns, hsupported, hne⟩
      rw [reconcileInner_of_no_candidate input hns hsupported hnone, stopMessage, if_pos hsupported]

theorem messagePatch_again {text : String} (hname : next.fleet.name = input.fleet.name)
    (hstatus : next.fleet.status = some ((input.messagePatch text).merge input.fleet.status)) :
    (next.messagePatch text).merge next.fleet.status =
      (input.messagePatch text).merge input.fleet.status := by
  have hphase : ((input.messagePatch text).merge input.fleet.status).phase ≠ "" := by
    rw [messagePatch]
    cases hread : input.fleet.status with
    | none =>
        simpa [StatusPatch.merge] using
          fleetPhaseFor_ne_empty input.fleet.spec.replicas 0 false
    | some status =>
        by_cases hempty : status.phase = ""
        · simpa [hempty, StatusPatch.merge] using fleetPhaseFor_ne_empty _ _ _
        · simp [hempty, StatusPatch.merge]
  rw [messagePatch, hstatus]
  dsimp only
  rw [if_neg (by simpa using hphase), StatusPatch.merge, hname, messagePatch]
  dsimp only [Option.getD_some, StatusPatch.merge]
  split
  · rfl
  · rfl

end ReconcileInput

namespace World

variable {world : World} {metadata : ObjectMeta} {left right : Round}

theorem reconcile_stopped_again (hsame : left.SameCluster metadata.name right)
    (hfull : ¬ left.IsFull metadata) :
    (world.reconcile metadata left).reconcile metadata right = world.reconcile metadata left := by
  have hright := hsame.isFull_iff.not.mp hfull
  cases hns : metadata.ns with
  | none =>
      have hunchanged : ∀ (other : World) (round : Round),
          other.reconcile metadata round = other := by
        intro other round
        have herror : reconcileInner (other.input metadata round) = .error .missingNamespace := by
          rw [reconcileInner, show (other.input metadata round).fleet.metadata.ns = none from hns]
        rw [reconcile, herror]
      rw [hunchanged, hunchanged]
  | some ns =>
      have hpatched : ∀ (other : World) (round : Round), ¬ round.IsFull metadata →
          other.reconcile metadata round = ⟨some (((other.input metadata round).messagePatch
            (other.input metadata round).stopMessage).merge other.status), other.children⟩ := by
        intro other round hstops
        have hsome : (other.input metadata round).fleet.metadata.ns.isSome = true := by
          rw [show (other.input metadata round).fleet.metadata.ns = some ns from hns]
          rfl
        rw [reconcile, ReconcileInput.reconcileInner_stopped hsome
          (isFull_input.not.mpr hstops)]
        rfl
      have hstop : ∀ other : World, (other.input metadata right).stopMessage =
          (world.input metadata left).stopMessage := by
        intro other
        rw [ReconcileInput.stopMessage, ReconcileInput.stopMessage,
          ReconcileInput.noCandidateMessage, ReconcileInput.noCandidateMessage]
        change (if right.spec.placement.strategy.isSupported then
          if right.spec.nodePool.selector.isEmpty then _ else _ else _) =
          if left.spec.placement.strategy.isSupported then
            if left.spec.nodePool.selector.isEmpty then _ else _ else _
        rw [hsame.spec]
      rw [hpatched _ right hright, hpatched world left hfull, hstop]
      congr 2
      exact @ReconcileInput.messagePatch_again (world.input metadata left) _ _ rfl rfl

end World

namespace ReconcileInput

theorem inputsFor_eq_none_iff {input : ReconcileInput} {node : String} :
    input.inputsFor node = none ↔ node ∉ input.poolCandidates.map NodeCandidate.name := by
  have hnames : input.candidates.map NodeCandidate.name =
      input.poolCandidates.map NodeCandidate.name := by
    rw [candidates, List.map_map]
    rfl
  rw [← hnames, List.mem_map]
  constructor
  · intro hnone hmem
    have hsome := inputsFor_isSome hmem
    rw [hnone] at hsome
    cases hsome
  · intro habsent
    have hfind : input.candidates.find? (fun candidate => candidate.name = node) = none := by
      rw [List.find?_eq_none]
      intro candidate hmem
      simpa using fun heq => habsent ⟨candidate, hmem, heq⟩
    rw [inputsFor, decisionInputs, hfind]
    rfl

theorem fullStatus_congr {left right : ReconcileInput} (hname : left.fleet.name = right.fleet.name)
    (hspec : left.fleet.spec = right.fleet.spec) (hdisplaced : left.displaced = right.displaced)
    (hplacements : left.placements = right.placements) : left.fullStatus = right.fullStatus := by
  rw [fullStatus, fullStatus, readyReplicas, readyReplicas, warmingReplicas, warmingReplicas,
    activeReschedules, activeReschedules, drainAndHold, drainAndHold, hname, hspec, hdisplaced,
    hplacements]

/-- Whether the slot has no child or one on a displaced node. -/
def unsettled (input : ReconcileInput) (index : Nat) : Bool :=
  (input.current[index]?).all fun node => decide (node ∈ input.displaced)

theorem unsettled_iff {input : ReconcileInput} (index : Nat) : input.unsettled index = true ↔
    ∀ node, input.current[index]? = some node → node ∈ input.displaced := by
  simp [unsettled, Option.all_eq_true]

end ReconcileInput

theorem count_eq_imp {before after : Nat → Prop} [DecidablePred before] [DecidablePred after]
    {bound index : Nat} (himp : ∀ other < bound, after other → before other)
    (heq : Nat.count after bound = Nat.count before bound) (hindex : index < bound)
    (hbefore : before index) : after index := by
  have hsubset : (Finset.range bound).filter after ⊆ (Finset.range bound).filter before := by
    intro other hother
    obtain ⟨hrange, hafter⟩ := Finset.mem_filter.mp hother
    exact Finset.mem_filter.mpr ⟨hrange, himp other (Finset.mem_range.mp hrange) hafter⟩
  have hsame := Finset.eq_of_subset_of_card_le hsubset (by
    rw [← Nat.count_eq_card_filter_range, ← Nat.count_eq_card_filter_range, heq])
  have hmem : index ∈ (Finset.range bound).filter before :=
    Finset.mem_filter.mpr ⟨Finset.mem_range.mpr hindex, hbefore⟩
  rw [← hsame] at hmem
  exact (Finset.mem_filter.mp hmem).2

/-! ## A run on a frozen cluster -/

/-- Reconciles of one cluster, one after the other, all of which plan. -/
structure FrozenRun (metadata : ObjectMeta) (rounds : Nat → Round) (states : Nat → World) :
    Prop where
  same : ∀ time later, (rounds time).SameCluster metadata.name (rounds later)
  full : ∀ time, (rounds time).IsFull metadata
  owned : ∀ time, (states time).Owned metadata.name
  step : ∀ time, states (time + 1) = (states time).reconcile metadata (rounds time)

namespace FrozenRun

variable {metadata : ObjectMeta} {rounds : Nat → Round} {states : Nat → World}
  (hrun : FrozenRun metadata rounds states)

include hrun

theorem desired_eq (time later : Nat) :
    ((states time).input metadata (rounds time)).desired =
      ((states later).input metadata (rounds later)).desired := by
  change (rounds time).spec.replicas.toInt.toNat = (rounds later).spec.replicas.toInt.toNat
  rw [(hrun.same time later).spec]

theorem displaced_eq (time later : Nat) :
    ((states time).input metadata (rounds time)).displaced =
      ((states later).input metadata (rounds later)).displaced :=
  (hrun.same time later).displaced

theorem current_eq (time index : Nat) :
    ((states time).input metadata (rounds time)).current[index]? =
      (states time).pin metadata.name index :=
  (hrun.owned time).current_lookup _ _

theorem pin_succ (time index : Nat) :
    (states (time + 1)).pin metadata.name index =
      if index < ((states time).input metadata (rounds time)).desired then
        ((states time).input metadata (rounds time)).pin index
      else if (((states time).input metadata (rounds time)).surplusOutcome index).2 then none
      else (states time).pin metadata.name index := by
  rw [hrun.step, (hrun.owned time).reconcile_pin (hrun.full time)]

/-! ## Surplus children -/

theorem held_of_surplus {time index : Nat}
    (hrange : ¬ index < ((states time).input metadata (rounds time)).desired)
    (hpin : (states (time + 1)).pin metadata.name index ≠ none) :
    (states time).pin metadata.name index ≠ none ∧
      (((states time).input metadata (rounds time)).surplusOutcome index).2 = false := by
  rw [hrun.pin_succ, if_neg hrange] at hpin
  split at hpin
  · exact absurd rfl hpin
  · next hheld => exact ⟨hpin, by simpa using hheld⟩

theorem counter_ge {time index : Nat}
    (hrange : ¬ index < ((states 0).input metadata (rounds 0)).desired)
    (hpin : (states time).pin metadata.name index ≠ none) :
    min (time : Int) (2 ^ 31 - 1) ≤
      max ((((states time).input metadata (rounds time)).prevSurplus[
        childName metadata.name index]?).getD 0).toInt 0 := by
  induction time with
  | zero => omega
  | succ time ih =>
      rw [hrun.desired_eq 0 time] at hrange
      obtain ⟨hbefore, hheld⟩ := hrun.held_of_surplus hrange hpin
      have hsurplus : (states time).surplusWithChild metadata (rounds time) index = true := by
        rw [World.surplusWithChild, Bool.and_eq_true, decide_eq_true_eq]
        refine ⟨(World.desired_le_iff _ _).mp hrange, ?_⟩
        rw [Option.isSome_iff_ne_none, ne_eq, ← (hrun.owned time).pin_eq_none]
        exact hbefore
      have hcounter := (hrun.owned time).written_counter (hrun.full time) (rounds (time + 1)) index
      rw [← hrun.step, if_pos ⟨hsurplus, hheld⟩] at hcounter
      have hcount := (surplusHysteresis_held hheld).1
      have hearlier := ih hbefore
      rw [hcounter]
      rw [ReconcileInput.surplusOutcome]
      rw [show ((states time).input metadata (rounds time)).fleet.name = metadata.name from rfl]
        at hcount ⊢
      rw [hcount]
      omega

theorem surplus_gone {time index : Nat} (htime : 2 ^ 31 ≤ time)
    (hrange : ¬ index < ((states 0).input metadata (rounds 0)).desired) :
    (states time).pin metadata.name index = none := by
  by_contra hpin
  obtain ⟨before, rfl⟩ : ∃ before, time = before + 1 := ⟨time - 1, by omega⟩
  have hbeyond := hrun.desired_eq 0 before ▸ hrange
  obtain ⟨hbefore, hheld⟩ := hrun.held_of_surplus hbeyond hpin
  have hcounter := hrun.counter_ge hrange hbefore
  obtain ⟨hcount, hless⟩ := surplusHysteresis_held hheld
  have hbound := ((states before).input metadata
    (rounds before)).fleet.spec.hysteresis.stableReconcilesRequired.toInt_lt
  rw [show ((states before).input metadata (rounds before)).fleet.name = metadata.name from rfl]
    at hcount hless
  omega

/-! ## Slots to settle -/

theorem unsettled_before {time index : Nat}
    (hrange : index < ((states time).input metadata (rounds time)).desired)
    (hafter : ((states (time + 1)).input metadata (rounds (time + 1))).unsettled index = true) :
    ((states time).input metadata (rounds time)).unsettled index = true ∧
      (states (time + 1)).pin metadata.name index = (states time).pin metadata.name index := by
  have hpin := hrun.pin_succ time index
  rw [if_pos hrange] at hpin
  have hsame : (states (time + 1)).pin metadata.name index =
      (states time).pin metadata.name index := by
    cases hnode : ((states time).input metadata (rounds time)).pin index with
    | none =>
        have hcurrent := ReconcileInput.current_of_pin_eq_none hnode
        rw [hrun.current_eq] at hcurrent
        rw [hpin, hnode, hcurrent]
    | some node =>
        by_contra hchanged
        have hsafe := ReconcileInput.pin_not_displaced hnode (by
          rw [hrun.current_eq, ← hnode, ← hpin]
          exact Ne.symm hchanged)
        rw [ReconcileInput.unsettled_iff, hrun.current_eq] at hafter
        exact hsafe (hrun.displaced_eq (time + 1) time ▸ hafter node (hpin.trans hnode))
  rw [ReconcileInput.unsettled_iff, hrun.current_eq, hsame,
    hrun.displaced_eq (time + 1) time] at hafter
  rw [ReconcileInput.unsettled_iff, hrun.current_eq]
  exact ⟨hafter, hsame⟩

theorem settled_kept {time index : Nat}
    (hrange : index < ((states time).input metadata (rounds time)).desired)
    (hsettled : ((states time).input metadata (rounds time)).unsettled index = false) :
    (states (time + 1)).pin metadata.name index = (states time).pin metadata.name index := by
  rw [← Bool.not_eq_true, ReconcileInput.unsettled_iff] at hsettled
  push Not at hsettled
  obtain ⟨node, hnode, hsafe⟩ := hsettled
  have hkept : ((states time).input metadata (rounds time)).pin index = some node := by
    by_contra hchanged
    exact hsafe (ReconcileInput.moved_of_repinned hnode hchanged).2
  rw [hrun.pin_succ, if_pos hrange, hkept, ← hrun.current_eq, hnode]

/-- From some reconcile on no pin changes, and no surplus child is left. -/
theorem pins_rest : ∃ settled, ∀ time ≥ settled, ∀ index,
    (states (time + 1)).pin metadata.name index = (states time).pin metadata.name index ∧
      (¬ index < ((states 0).input metadata (rounds 0)).desired →
        (states time).pin metadata.name index = none) := by
  have hcount : ∀ time, Nat.count (fun index =>
        ((states (time + 1)).input metadata (rounds (time + 1))).unsettled index = true)
          ((states 0).input metadata (rounds 0)).desired ≤
      Nat.count (fun index =>
        ((states time).input metadata (rounds time)).unsettled index = true)
          ((states 0).input metadata (rounds 0)).desired :=
    fun time => Nat.count_mono_left fun index hindex hafter =>
      (hrun.unsettled_before (hrun.desired_eq 0 time ▸ hindex) hafter).1
  obtain ⟨settled, hconstant⟩ := @eventually_constant (fun time => Nat.count (fun index =>
    ((states time).input metadata (rounds time)).unsettled index = true)
      ((states 0).input metadata (rounds 0)).desired) hcount
  refine ⟨max settled (2 ^ 31), fun time htime index => ?_⟩
  have hgone : ∀ later ≥ time, ¬ index < ((states 0).input metadata (rounds 0)).desired →
      (states later).pin metadata.name index = none :=
    fun later hlater => hrun.surplus_gone (by omega)
  refine ⟨?_, hgone time le_rfl⟩
  by_cases hrange : index < ((states 0).input metadata (rounds 0)).desired
  · have hinRange := hrun.desired_eq 0 time ▸ hrange
    cases hbefore : ((states time).input metadata (rounds time)).unsettled index with
    | false => exact hrun.settled_kept hinRange hbefore
    | true =>
        refine (hrun.unsettled_before hinRange ?_).2
        refine count_eq_imp (fun other hother hafter => ?_) (hconstant time (by omega)) hrange
          hbefore
        exact (hrun.unsettled_before (hrun.desired_eq 0 time ▸ hother) hafter).1
  · rw [hgone time le_rfl hrange, hgone (time + 1) (Nat.le_succ time) hrange]

/-! ## At rest -/

theorem written_placements (time : Nat) : ((states (time + 1)).input metadata
      (rounds (time + 1))).fleet.placements =
    ((states time).input metadata (rounds time)).placements := by
  rw [World.input_placements, hrun.step, World.reconcile_placements (hrun.full time)]

theorem preempted_eq {time index : Nat} {node : String}
    (hnode : (states time).pin metadata.name index = some node) :
    decide (index ∈ ((states time).input metadata (rounds time)).preemptedSlots) =
      decide (node ∈ ((states 0).input metadata (rounds 0)).displaced) := by
  refine decide_eq_decide.mpr ?_
  rw [ReconcileInput.mem_preemptedSlots, hrun.current_eq, hnode, hrun.displaced_eq time 0]
  simp

section Rest

variable {settled : Nat} (hrest : ∀ time ≥ settled, ∀ index,
  (states (time + 1)).pin metadata.name index = (states time).pin metadata.name index ∧
    (¬ index < ((states 0).input metadata (rounds 0)).desired →
      (states time).pin metadata.name index = none))

omit hrun in
include hrest in
theorem pin_rest {time later : Nat} (htime : settled ≤ time) (hlater : time ≤ later) (index : Nat) :
    (states later).pin metadata.name index = (states time).pin metadata.name index := by
  induction later, hlater using Nat.le_induction with
  | base => rfl
  | succ later hle ih => rw [(hrest later (htime.trans hle) index).1, ih]

theorem child_eq (time later : Nat) (slot : Nat × String) :
    ((states time).input metadata (rounds time)).child slot =
      ((states later).input metadata (rounds later)).child slot := by
  change ownedVllmService ⟨metadata, (rounds time).spec, _⟩ _ _ _ =
    ownedVllmService ⟨metadata, (rounds later).spec, _⟩ _ _ _
  rw [(hrun.same time later).spec]
  rfl

include hrest

theorem pin_inRange {time : Nat} (htime : settled ≤ time) {index : Nat} {node : String}
    (hnode : (states time).pin metadata.name index = some node) :
    index < ((states time).input metadata (rounds time)).desired := by
  by_contra hrange
  rw [(hrest time htime index).2 (hrun.desired_eq 0 time ▸ hrange)] at hnode
  cases hnode

theorem planned_pin {time : Nat} (htime : settled ≤ time) {index : Nat}
    (hrange : index < ((states time).input metadata (rounds time)).desired) :
    ((states time).input metadata (rounds time)).pin index =
      (states time).pin metadata.name index := by
  rw [← (hrest time htime index).1, hrun.pin_succ, if_pos hrange]

theorem child_rest {time : Nat} (htime : settled ≤ time) (index : Nat) :
    (states (time + 1)).children[childName metadata.name index]? =
      ((states time).pin metadata.name index).map fun node =>
        ((states 0).input metadata (rounds 0)).child (index, node) := by
  by_cases hrange : index < ((states time).input metadata (rounds time)).desired
  · rw [hrun.step, (hrun.owned time).reconcile_child (hrun.full time), if_pos hrange,
      hrun.planned_pin hrest htime hrange]
    simp only [hrun.child_eq time 0]
  · have hgone := (hrest (time + 1) (Nat.le_succ_of_le htime) index).2
      (hrun.desired_eq 0 time ▸ hrange)
    rw [((hrun.owned (time + 1)).pin_eq_none index).mp hgone, ← (hrest time htime index).1, hgone]
    rfl

theorem children_rest {time : Nat} (htime : settled < time) :
    (states (time + 1)).children = (states time).children := by
  obtain ⟨before, rfl⟩ : ∃ before, time = before + 1 := ⟨time - 1, by omega⟩
  have hbefore : settled ≤ before := Nat.lt_succ_iff.mp htime
  apply ExtTreeMap.ext_getElem?
  intro name
  by_cases hchild : ∃ index, name = childName metadata.name index
  · obtain ⟨index, rfl⟩ := hchild
    rw [hrun.child_rest hrest hbefore, hrun.child_rest hrest (Nat.le_of_lt htime),
      (hrest before hbefore index).1]
  · have hnone : ∀ later, (states later).children[name]? = none := by
      intro later
      cases hlookup : (states later).children[name]? with
      | none => rfl
      | some child =>
          obtain ⟨index, -, hname, -⟩ := hrun.owned later name child hlookup
          exact absurd ⟨index, hname⟩ hchild
    rw [hnone, hnone]

theorem slotNodes_rest {time : Nat} (htime : settled ≤ time) :
    ((states (time + 1)).input metadata (rounds (time + 1))).slotNodes =
      ((states time).input metadata (rounds time)).slotNodes := by
  rw [ReconcileInput.slotNodes_eq, ReconcileInput.slotNodes_eq, hrun.desired_eq (time + 1) time]
  refine List.filterMap_congr fun index hindex => ?_
  have hrange := List.mem_range.mp hindex
  rw [hrun.planned_pin hrest htime hrange,
    hrun.planned_pin hrest (Nat.le_succ_of_le htime) (hrun.desired_eq time (time + 1) ▸ hrange),
    (hrest time htime index).1]

theorem placements_applied {time : Nat} (htime : settled ≤ time) :
    ((states time).input metadata (rounds time)).placements =
      ((states time).input metadata (rounds time)).slotNodes.map
        ((states time).input metadata (rounds time)).appliedPlacement := by
  have hheld : ((states time).input metadata (rounds time)).heldSlots = [] := by
    rw [List.eq_nil_iff_forall_not_mem]
    rintro ⟨index, node⟩ hmem
    obtain ⟨hcurrent, hrange, -⟩ := (ReconcileInput.mem_heldSlots index node).mp hmem
    rw [hrun.current_eq] at hcurrent
    exact hrange (hrun.pin_inRange hrest htime hcurrent)
  rw [ReconcileInput.placements_eq, hheld, List.map_nil, List.append_nil]

theorem placementOf_rest {time index : Nat} {node : String} (htime : settled ≤ time)
    (hnode : (states time).pin metadata.name index = some node) :
    ((states time).input metadata (rounds time)).placementOf index =
      some (((states time).input metadata (rounds time)).appliedPlacement (index, node)) := by
  have hrange := hrun.pin_inRange hrest htime hnode
  rw [ReconcileInput.placementOf, if_pos hrange, hrun.planned_pin hrest htime hrange, hnode]
  rfl

theorem phase_succ {time index : Nat} {node : String} (htime : settled ≤ time)
    (hnode : (states time).pin metadata.name index = some node) :
    (((states (time + 1)).input metadata (rounds (time + 1))).appliedPlacement
        (index, node)).phase =
      placementPhaseFor (((states time).input metadata (rounds time)).appliedPlacement
        (index, node)).phase ((rounds 0).ready metadata.name index)
        (decide (node ∈ ((states 0).input metadata (rounds 0)).displaced)) := by
  have hnext := (hrest time htime index).1.trans hnode
  have hphase := ReconcileInput.prevPhase_readBack ((states time).input metadata (rounds time)) _
    (hrun.written_placements time) index
  have hready := (hrun.owned (time + 1)).childReady_getD (rounds (time + 1)) hnext
  rw [hrun.placementOf_rest hrest htime hnode] at hphase
  rw [ReconcileInput.appliedPlacement]
  dsimp only
  rw [hrun.preempted_eq hnext, ReconcileInput.advancedPhase]
  rw [show ((states (time + 1)).input metadata (rounds (time + 1))).fleet.name = metadata.name
    from rfl, hready, (hrun.same (time + 1) 0).ready index]
  rw [show ((states time).input metadata (rounds time)).fleet.name = metadata.name from rfl]
    at hphase
  rw [hphase]
  rfl

theorem phase_rest {time index : Nat} {node : String} (htime : settled + 3 ≤ time)
    (hnode : (states time).pin metadata.name index = some node) :
    (((states (time + 1)).input metadata (rounds (time + 1))).appliedPlacement
        (index, node)).phase =
      (((states time).input metadata (rounds time)).appliedPlacement (index, node)).phase := by
  have hpinned : ∀ later ≥ settled, (states later).pin metadata.name index = some node := by
    intro later hlater
    rw [pin_rest hrest le_rfl hlater, ← pin_rest hrest le_rfl (by omega : settled ≤ time), hnode]
  have hstep := fun later hlater => hrun.phase_succ hrest hlater (hpinned later hlater)
  refine @stays_of_repeated _ (fun later => (((states later).input metadata
    (rounds later)).appliedPlacement (index, node)).phase) (fun phase => placementPhaseFor phase
      ((rounds 0).ready metadata.name index)
      (decide (node ∈ ((states 0).input metadata (rounds 0)).displaced))) (settled + 3)
    (fun later hlater => hstep later (by omega)) ?_ _ htime
  rw [hstep (settled + 3) (by omega), hstep (settled + 2) (by omega),
    hstep (settled + 1) (by omega), hstep settled le_rfl]
  cases decide (node ∈ ((states 0).input metadata (rounds 0)).displaced) with
  | true => rfl
  | false => exact placementPhaseFor_settles _ _

theorem record_rest {time index : Nat} {node : String} (htime : settled ≤ time)
    (hnode : (states time).pin metadata.name index = some node) :
    (((states (time + 1)).input metadata (rounds (time + 1))).appliedPlacement
        (index, node)).decidedOn =
      (((states time).input metadata (rounds time)).appliedPlacement (index, node)).decidedOn := by
  have hrecord := ReconcileInput.prevDecided_readBack ((states time).input metadata (rounds time)) _
    (hrun.written_placements time) index
  rw [hrun.placementOf_rest hrest htime hnode, Option.bind_some] at hrecord
  have hagain : (((states (time + 1)).input metadata (rounds (time + 1))).appliedPlacement
      (index, node)).decidedOn =
      ((((states time).input metadata (rounds time)).appliedPlacement
        (index, node)).decidedOn).or
        (((states (time + 1)).input metadata (rounds (time + 1))).inputsFor node) :=
    congrArg (Option.or · _) hrecord
  rw [hagain]
  cases hbefore : (((states time).input metadata (rounds time)).appliedPlacement
      (index, node)).decidedOn with
  | some decided => exact Option.some_or
  | none =>
      have hnone : ((states time).input metadata (rounds time)).inputsFor node = none :=
        (Option.or_eq_none_iff.mp hbefore).2
      rw [Option.none_or]
      rw [ReconcileInput.inputsFor_eq_none_iff] at hnone ⊢
      have hsame := hrun.same (time + 1) time
      refine fun hmem => hnone ?_
      change node ∈ ((rounds (time + 1)).snapshot.poolCandidates
        (rounds (time + 1)).spec.nodePool.selector).map NodeCandidate.name at hmem
      rw [hsame.spec, Snapshot.mem_candidateNames hsame.states hsame.nodes] at hmem
      exact hmem

theorem placements_rest {time : Nat} (htime : settled + 3 ≤ time) :
    ((states (time + 1)).input metadata (rounds (time + 1))).placements =
      ((states time).input metadata (rounds time)).placements := by
  rw [hrun.placements_applied hrest (by omega), hrun.placements_applied hrest (by omega),
    hrun.slotNodes_rest hrest (by omega)]
  refine List.map_congr_left fun slot hslot => ?_
  obtain ⟨index, node⟩ := slot
  obtain ⟨hrange, hpin⟩ := (ReconcileInput.mem_slotNodes index node).mp hslot
  rw [hrun.planned_pin hrest (by omega) hrange] at hpin
  have hphase := hrun.phase_rest hrest htime hpin
  have hrecord := hrun.record_rest hrest (by omega) hpin
  exact (PlacementStatus.mk.injEq ..).mpr ⟨rfl, rfl, hphase, rfl, rfl, rfl, hrecord⟩

theorem state_rest {time : Nat} (htime : settled + 4 ≤ time) :
    states (time + 1) = states time := by
  obtain ⟨before, rfl⟩ : ∃ before, time = before + 1 := ⟨time - 1, by omega⟩
  have hwritten : ∀ later, (states (later + 1)).status =
      some ((states later).input metadata (rounds later)).fullStatus := by
    intro later
    rw [hrun.step, World.reconcile_status (hrun.full later)]
  have hfull : ((states (before + 1)).input metadata (rounds (before + 1))).fullStatus =
      ((states before).input metadata (rounds before)).fullStatus := by
    refine ReconcileInput.fullStatus_congr ?_ (hrun.same (before + 1) before).spec
      (hrun.displaced_eq (before + 1) before) (hrun.placements_rest hrest (by omega))
    rfl
  have hstatus : (states (before + 1 + 1)).status = (states (before + 1)).status :=
    (hwritten (before + 1)).trans ((congrArg some hfull).trans (hwritten before).symm)
  have hchildren := hrun.children_rest hrest (show settled < before + 1 by omega)
  cases hlater : states (before + 1 + 1) with
  | mk status children =>
      rw [hlater] at hstatus hchildren
      dsimp only at hstatus hchildren
      rw [hstatus, hchildren]

end Rest

end FrozenRun

/-- Whatever the fleet, its children and its status, reconciling a cluster in which
only the clock advances ends in a state that every further reconcile keeps. -/
theorem frozen_cluster_converges (metadata : ObjectMeta) (world : World)
    (howned : world.Owned metadata.name) (rounds : Nat → Round)
    (hsame : ∀ time later, (rounds time).SameCluster metadata.name (rounds later)) :
    let states := run (fun round world => World.reconcile world metadata round) rounds world
    ∃ settled, ∀ time ≥ settled, states (time + 1) = states time := by
  intro states
  by_cases hfull : (rounds 0).IsFull metadata
  · have hrun : FrozenRun metadata rounds states := by
      refine ⟨hsame, fun time => (hsame 0 time).isFull_iff.mp hfull, fun time => ?_, fun _ => rfl⟩
      induction time with
      | zero => exact howned
      | succ time ih => exact ih.reconcile
    obtain ⟨settled, hrest⟩ := hrun.pins_rest
    exact ⟨settled + 4, fun time htime => hrun.state_rest hrest htime⟩
  · refine ⟨1, fun time htime => ?_⟩
    obtain ⟨before, rfl⟩ : ∃ before, time = before + 1 := ⟨time - 1, by omega⟩
    exact World.reconcile_stopped_again (hsame before (before + 1))
      ((hsame 0 before).isFull_iff.not.mp hfull)

namespace Sample

def frozenRounds (time : Nat) : Round :=
  round (spec 2 1 1) { snapshot ["gone", "a"] ["gone"] with clock := ⟨time, fun _ => none⟩ }
    ["fleet-1"]

theorem frozen_cluster_converges_sample :
    ∃ settled, ∀ time ≥ settled,
      run (fun round world => World.reconcile world metadata round) frozenRounds
          (pinned [(0, "gone"), (1, "gone"), (2, "a")]) (time + 1) =
        run (fun round world => World.reconcile world metadata round) frozenRounds
          (pinned [(0, "gone"), (1, "gone"), (2, "a")]) time :=
  frozen_cluster_converges metadata _ (pinned_owned (by decide)) frozenRounds
    fun _ _ => ⟨rfl, rfl, rfl, fun _ => rfl⟩

end Sample

end VllmColdstartOperator
