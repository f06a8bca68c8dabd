import VllmColdstartOperator.Guarantees.DecidedOn
import VllmColdstartOperator.Guarantees.RankedOn
import VllmColdstartOperator.Guarantees.Retention

/-!
# Where a ranked signal comes from

A NodeState's status is written by its reporter, through restarts and failed
patches, and beside it by whoever sets the warmth and the notice; it may be
deleted and created again.  Every efficiency signal that a fleet ever records for
a slot was measured by the reporter of the node the slot was then given, before
the reconcile that recorded it read the NodeState, at an instant within the
horizon of that reconcile.
-/

namespace VllmColdstartOperator

open Foundation Std

/-! ## What is measured -/

namespace NodeStateEvent

def measurement (kind : Efficiency) : NodeStateEvent → Option (F32 × String)
  | .reporter event => event.measurement kind
  | .other _ _ => none
  | .recreated => none

end NodeStateEvent

/-- The events before a moment, from a NodeState with no status. -/
structure NodeHistory where
  events : Nat → NodeStateEvent
  time : Nat

namespace NodeHistory

variable (history : NodeHistory)

def state : ReporterState :=
  run NodeStateEvent.step history.events ⟨.empty, none⟩ history.time

def Measured (kind : Efficiency) (value : F32) (instant : String) : Prop :=
  ∃ index < history.time, (history.events index).measurement kind = some (value, instant)

end NodeHistory

/-! ## What is retained and what is published -/

/-- Values in the memory and in the status are measured ones, and stand beside
the instant of their own measurement. -/
structure Traced (kind : Efficiency) (measured : F32 → String → Prop) (state : ReporterState) :
    Prop where
  retained : ∀ value instant, state.retention.last kind = some (value, instant) →
    measured value instant
  published : ∀ value, (state.pair kind).1 = some value →
    ∃ instant, (state.pair kind).2 = some instant ∧ measured value instant

variable {kind : Efficiency}

theorem jsonNumber_eq_some {value number : F32} (hnumber : jsonNumber value = some number) :
    number = value := by
  unfold jsonNumber at hnumber
  split at hnumber
  · exact (Option.some.inj hnumber).symm
  · cases hnumber

theorem Traced.reporter {measured next : F32 → String → Prop} {state : ReporterState}
    (htraced : Traced kind measured state) {event : ReporterEvent}
    (hgrows : ∀ value instant, measured value instant → next value instant)
    (hnext : ∀ value instant, event.measurement kind = some (value, instant) →
      next value instant) :
    Traced kind next (ReporterState.step event state) := by
  have hretained : ∀ value instant,
      (ReporterState.step event state).retention.last kind = some (value, instant) →
      next value instant := by
    intro value instant hlast
    rw [step_last] at hlast
    cases event with
    | start => cases hlast
    | failedGet => exact hgrows value instant (htraced.retained value instant hlast)
    | report pass =>
        cases hmeasured : (ReporterEvent.report pass).measurement kind with
        | none =>
            dsimp only at hlast
            rw [hmeasured, Option.none_or] at hlast
            exact hgrows value instant (htraced.retained value instant hlast)
        | some found =>
            dsimp only at hlast
            rw [hmeasured, Option.some_or] at hlast
            exact hnext value instant (hmeasured.trans hlast)
  refine ⟨hretained, fun value hvalue => ?_⟩
  rcases @step_pair kind event state with hsame | ⟨pass, -, -, hwritten⟩
  · rw [hsame] at hvalue ⊢
    obtain ⟨instant, hinstant, hmeasured⟩ := htraced.published value hvalue
    exact ⟨instant, hinstant, hgrows value instant hmeasured⟩
  · rw [hwritten] at hvalue ⊢
    obtain ⟨kept, hkept, hnumber⟩ := Option.bind_eq_some_iff.mp hvalue
    obtain ⟨⟨_, instant⟩, hlast, rfl⟩ := Option.map_eq_some_iff.mp hkept
    rw [jsonNumber_eq_some hnumber]
    exact ⟨instant, by rw [hlast]; rfl, hretained _ instant hlast⟩

theorem Traced.other {measured next : F32 → String → Prop} {state : ReporterState}
    (htraced : Traced kind measured state) (warmth : Warmth) (spot : SpotStatus)
    (hgrows : ∀ value instant, measured value instant → next value instant) :
    Traced kind next (NodeStateEvent.step (.other warmth spot) state) := by
  have hpair : (NodeStateEvent.step (.other warmth spot) state).pair kind = state.pair kind := by
    cases kind <;> rfl
  refine ⟨fun value instant hlast =>
    hgrows value instant (htraced.retained value instant hlast), fun value hvalue => ?_⟩
  rw [hpair] at hvalue ⊢
  obtain ⟨instant, hinstant, hmeasured⟩ := htraced.published value hvalue
  exact ⟨instant, hinstant, hgrows value instant hmeasured⟩

theorem Traced.recreated {measured next : F32 → String → Prop} {state : ReporterState}
    (htraced : Traced kind measured state)
    (hgrows : ∀ value instant, measured value instant → next value instant) :
    Traced kind next (NodeStateEvent.step .recreated state) := by
  refine ⟨fun value instant hlast =>
    hgrows value instant (htraced.retained value instant hlast), fun value hvalue => ?_⟩
  cases kind <;> cases hvalue

theorem NodeHistory.traced (kind : Efficiency) (events : Nat → NodeStateEvent) (time : Nat) :
    Traced kind (NodeHistory.Measured ⟨events, time⟩ kind) (NodeHistory.state ⟨events, time⟩) := by
  induction time with
  | zero =>
      refine ⟨fun value instant hlast => ?_, fun value hvalue => ?_⟩
      · cases kind <;> cases hlast
      · cases kind <;> cases hvalue
  | succ time ih =>
      have hgrows : ∀ value instant, NodeHistory.Measured ⟨events, time⟩ kind value instant →
          NodeHistory.Measured ⟨events, time + 1⟩ kind value instant := by
        rintro value instant ⟨index, hlt, hmeasured⟩
        exact ⟨index, Nat.lt_succ_of_lt hlt, hmeasured⟩
      rw [NodeHistory.state, run_succ]
      dsimp only
      cases hevent : events time with
      | reporter event =>
          refine Traced.reporter ih hgrows fun value instant hmeasured => ?_
          exact ⟨time, Nat.lt_succ_self time, by dsimp only; rw [hevent]; exact hmeasured⟩
      | other warmth spot => exact Traced.other ih warmth spot hgrows
      | recreated => exact Traced.recreated ih hgrows

/-! ## What a reconcile reads -/

abbrev NodeReports := Option String → String → Nat → NodeStateEvent

/-- How much of its history each node state has had, by namespace and name. -/
abbrev NodeMoments := Option String → String → Nat

/-- Each NodeState is read as it was at its moment. -/
def Snapshot.Observes (snapshot : Snapshot) (reports : NodeReports) (moments : NodeMoments) :
    Prop :=
  ∀ state ∈ snapshot.states, state.status = (NodeHistory.state
    ⟨reports state.metadata.ns state.name, moments state.metadata.ns state.name⟩).status

def NodeCandidate.signal (candidate : NodeCandidate) : Efficiency → Option F32
  | .hitRate => candidate.kvCacheHitRate
  | .tokensPerJoule => candidate.tokensPerJoule

def NodeCandidate.signalAge (candidate : NodeCandidate) : Efficiency → Option Int
  | .hitRate => candidate.kvCacheHitRateAgeSecs
  | .tokensPerJoule => candidate.tokensPerJouleAgeSecs

def PlacementDecisionInputs.signal (inputs : PlacementDecisionInputs) : Efficiency → Option F32
  | .hitRate => inputs.kvCacheHitRate
  | .tokensPerJoule => inputs.tokensPerJoule

/-- Of a NodeState of the node, the reporter measured the value before the
reconcile read it, at an instant it reads as within the horizon. -/
def Round.Measured (round : Round) (reports : NodeReports) (moments : NodeMoments)
    (node : String) (kind : Efficiency) (value : F32) : Prop :=
  ∃ state ∈ round.snapshot.states, state.name = node ∧ ∃ instant,
    NodeHistory.Measured ⟨reports state.metadata.ns state.name,
      moments state.metadata.ns state.name⟩ kind value instant ∧
    withinHorizon (ageSecs (some instant) round.snapshot.clock)
      round.spec.placement.signalMaxAgeSeconds = true

theorem mem_takeCandidates {nodes : List Node} {byNode : BTreeMap String NodeCandidate}
    {candidate : NodeCandidate} (hmem : candidate ∈ takeCandidates nodes byNode) :
    (∃ name, candidate = bareCandidate name) ∨ ∃ name : String, byNode[name]? = some candidate := by
  induction nodes generalizing byNode with
  | nil => cases hmem
  | cons node nodes ih =>
      rw [takeCandidates, List.mem_cons] at hmem
      rcases hmem with rfl | hrest
      · cases hlookup : byNode[node.name]? with
        | none => exact .inl ⟨node.name, rfl⟩
        | some candidate => exact .inr ⟨node.name, hlookup⟩
      · refine (ih hrest).imp_right ?_
        rintro ⟨name, hlookup⟩
        rw [BTreeMap.lookup_erase] at hlookup
        split at hlookup
        · cases hlookup
        · exact ⟨name, hlookup⟩

theorem Snapshot.mem_poolCandidates {snapshot : Snapshot} {selector : BTreeMap String String}
    {candidate : NodeCandidate} (hmem : candidate ∈ snapshot.poolCandidates selector) :
    (∃ name, candidate = bareCandidate name) ∨ ∃ state ∈ snapshot.states,
      nodeStateToCandidate state snapshot.clock = some candidate := by
  have hfiled := candidatesByNode_filed snapshot.states snapshot.clock
  have hstate : ∀ (name : String) (candidate : NodeCandidate),
      (candidatesByNode snapshot.states snapshot.clock)[name]? = some candidate →
      ∃ state ∈ snapshot.states,
        nodeStateToCandidate state snapshot.clock = some candidate := by
    intro name candidate hlookup
    rw [candidatesByNode_findSome] at hlookup
    obtain ⟨state, hmem, hcandidate⟩ := List.exists_of_findSome?_eq_some hlookup
    exact ⟨state, (List.mem_insertionSort _).mp hmem, (candidateNamed_eq_some.mp hcandidate).2⟩
  rw [poolCandidates] at hmem
  split at hmem
  · obtain ⟨hmem, -⟩ := List.mem_filter.mp hmem
    obtain ⟨⟨name, other⟩, hpair, rfl⟩ := List.mem_map.mp hmem
    exact .inr (hstate name other (ExtTreeMap.mem_toList_iff_getElem?_eq_some.mp hpair))
  · rcases mem_takeCandidates hmem with hbare | ⟨name, hlookup⟩
    · exact .inl hbare
    · exact .inr (hstate name candidate hlookup)

theorem Snapshot.Observes.measured {snapshot : Snapshot} {reports : NodeReports}
    {moments : NodeMoments} (hobserves : snapshot.Observes reports moments)
    {selector : BTreeMap String String} {candidate : NodeCandidate}
    (hmem : candidate ∈ snapshot.poolCandidates selector) {value : F32}
    (hvalue : candidate.signal kind = some value) :
    ∃ state ∈ snapshot.states, state.name = candidate.name ∧ ∃ instant,
      NodeHistory.Measured ⟨reports state.metadata.ns state.name,
        moments state.metadata.ns state.name⟩ kind value instant ∧
      candidate.signalAge kind = ageSecs (some instant) snapshot.clock := by
  rcases Snapshot.mem_poolCandidates hmem with ⟨name, rfl⟩ | ⟨state, hstate, hcandidate⟩
  · cases kind <;> cases hvalue
  · have htime := hobserves state hstate
    obtain ⟨status, hstatus, heq⟩ := Option.bind_eq_some_iff.mp hcandidate
    have htraced := NodeHistory.traced kind (reports state.metadata.ns state.name)
      (moments state.metadata.ns state.name)
    have hpair : (NodeHistory.state ⟨reports state.metadata.ns state.name,
        moments state.metadata.ns state.name⟩).pair kind = status.published kind := by
      rw [ReporterState.pair, ← htime, hstatus, Option.getD_some]
    have hpublished : (status.published kind).1 = candidate.signal kind := by
      cases heq
      cases kind <;> rfl
    have hage : candidate.signalAge kind =
        ageSecs (status.published kind).2 snapshot.clock := by
      cases heq
      cases kind <;> rfl
    have hname : state.name = candidate.name := by
      cases heq
      rfl
    obtain ⟨instant, hinstant, hmeasured⟩ :=
      htraced.published value (by rw [hpair, hpublished, hvalue])
    rw [hpair] at hinstant
    exact ⟨state, hstate, hname, instant, hmeasured, by rw [hage, hinstant]⟩

/-- What a decision records of a signal is the node's own, in the horizon. -/
theorem decisionInputs_signal {candidates : List NodeCandidate} {node : String}
    {strategy : PlacementStrategy} {horizonSecs : Option Int} {decided : PlacementDecisionInputs}
    (hdecided : decisionInputs candidates node strategy horizonSecs = some decided)
    {value : F32} (hvalue : decided.signal kind = some value) :
    ∃ candidate ∈ candidates, candidate.name = node ∧ candidate.signal kind = some value ∧
      withinHorizon (candidate.signalAge kind) horizonSecs = true := by
  cases hfound : candidates.find? fun candidate => candidate.name = node with
  | none =>
      rw [decisionInputs, hfound] at hdecided
      cases hdecided
  | some candidate =>
      rw [decisionInputs_eq strategy horizonSecs hfound, Option.some.injEq] at hdecided
      refine ⟨candidate, List.mem_of_find?_eq_some hfound,
        by simpa using List.find?_some hfound, ?_⟩
      subst hdecided
      cases kind with
      | hitRate => exact Option.filter_eq_some_iff.mp hvalue
      | tokensPerJoule => exact Option.filter_eq_some_iff.mp hvalue

namespace ReconcileInput

variable {input : ReconcileInput}

theorem placement_decidedOn {placement : PlacementStatus} (hmem : placement ∈ input.placements)
    {decided : PlacementDecisionInputs} (hdecided : placement.decidedOn = some decided) :
    (∃ previous ∈ input.fleet.placements,
        previous.vllmServiceRef = placement.vllmServiceRef ∧
          previous.decidedOn = some decided) ∨
      input.inputsFor placement.nodeRef = some decided := by
  have hprevious : ∀ name : String, input.prevDecided[name]? = some decided →
      ∃ previous ∈ input.fleet.placements,
        previous.vllmServiceRef = name ∧ previous.decidedOn = some decided := by
    intro name hlookup
    obtain ⟨previous, hprevious, heq⟩ :=
      List.mem_filterMap.mp (BTreeMap.mem_of_lookup_collect hlookup)
    obtain ⟨found, hfound, heq⟩ := Option.map_eq_some_iff.mp heq
    cases heq
    exact ⟨previous, hprevious, rfl, hfound⟩
  rw [placements, List.mem_insertionSort, List.mem_append, List.mem_map, List.mem_map] at hmem
  rcases hmem with ⟨slot, -, rfl⟩ | ⟨slot, -, rfl⟩
  · rcases Option.or_eq_some_iff.mp hdecided with hkept | ⟨-, hnew⟩
    · exact .inl (hprevious _ hkept)
    · exact .inr hnew
  · exact .inl (hprevious _ hdecided)

end ReconcileInput

/-! ## Every record of a run -/

namespace World

variable {world : World} {metadata : ObjectMeta} {round : Round}

def lossyAttempts (metadata : ObjectMeta) (steps : Nat → (String → Bool) × Round × Nat)
    (start : World) : Nat → World :=
  run (fun step world => (world.lose step.1).attempt metadata step.2.1 step.2.2) steps start

theorem attempt_placements (world : World) (metadata : ObjectMeta) (round : Round) (made : Nat) :
    (world.attempt metadata round made).placements = world.placements ∨
      (world.attempt metadata round made).placements =
        (world.input metadata round).placements := by
  by_cases hfull : round.IsFull metadata
  · rcases Nat.lt_or_ge (world.input metadata round).childCalls.length made with hall | hcut
    · right
      have hwhole : world.attempt metadata round made = world.reconcile metadata round := by
        rw [attempt, reconcile, ReconcileInput.reconcileInner_of_isFull (isFull_input.mpr hfull)]
        dsimp only
        rw [List.take_of_length_le]
        simpa using hall
      rw [hwhole, reconcile_placements hfull]
    · left
      rw [placements, attempt_status hfull hcut, placements]
  · exact .inl (attempt_of_not_isFull hfull made).2

theorem inputsFor_measured {reports : NodeReports} {moments : NodeMoments}
    (hobserves : round.snapshot.Observes reports moments)
    {node : String} {decided : PlacementDecisionInputs}
    (hdecided : (world.input metadata round).inputsFor node = some decided) {value : F32}
    (hvalue : decided.signal kind = some value) :
    round.Measured reports moments node kind value := by
  obtain ⟨candidate, hcandidate, rfl, hsignal, hfresh⟩ := decisionInputs_signal hdecided hvalue
  obtain ⟨pooled, hpooled, rfl⟩ := List.mem_map.mp hcandidate
  have hsame : (foldOwnLoad (world.input metadata round).ownCounts
      (world.input metadata round).derivedWarmth pooled).signal kind = pooled.signal kind := by
    cases kind <;> rfl
  obtain ⟨state, hstate, hname, instant, hmeasured, hage⟩ :=
    hobserves.measured hpooled (hsame.symm.trans hsignal)
  refine ⟨state, hstate, hname, instant, hmeasured, ?_⟩
  rw [← hage]
  cases kind <;> exact hfresh

end World

/-- Every record in the status was written by some earlier reconcile into the
placement of that child, and every efficiency signal in it was measured by a
reporter of the node of that placement before that reconcile read it, at an
instant within its horizon. -/
theorem recorded_signals_measured (metadata : ObjectMeta) (reports : NodeReports) (start : World)
    (hstart : start.placements = []) (steps : Nat → (String → Bool) × Round × Nat)
    (moments : Nat → NodeMoments)
    (hobserves : ∀ time, (steps time).2.1.snapshot.Observes reports (moments time)) (time : Nat) :
    ∀ placement ∈ (start.lossyAttempts metadata steps time).placements,
      ∀ decided, placement.decidedOn = some decided →
        ∃ earlier < time,
          ∃ made ∈ (start.lossyAttempts metadata steps (earlier + 1)).placements,
            made.vllmServiceRef = placement.vllmServiceRef ∧ made.decidedOn = some decided ∧
              ∀ kind value, decided.signal kind = some value →
                (steps earlier).2.1.Measured reports (moments earlier) made.nodeRef kind
                  value := by
  induction time with
  | zero =>
      intro placement hmem
      rw [World.lossyAttempts, run_zero, hstart] at hmem
      cases hmem
  | succ time ih =>
      intro placement hmem decided hdecided
      have hstep := hmem
      rw [World.lossyAttempts, run_succ] at hstep
      rcases World.attempt_placements
          ((start.lossyAttempts metadata steps time).lose (steps time).1) metadata
          (steps time).2.1 (steps time).2.2 with hkept | hwritten
      · obtain ⟨earlier, hlt, hmade⟩ := ih placement (hkept ▸ hstep) decided hdecided
        exact ⟨earlier, Nat.lt_succ_of_lt hlt, hmade⟩
      · rcases ReconcileInput.placement_decidedOn (hwritten ▸ hstep) hdecided with
          ⟨previous, hprevious, href, hsame⟩ | hnew
        · obtain ⟨earlier, hlt, made, hmade, hmadeRef, hrest⟩ :=
            ih previous hprevious decided hsame
          exact ⟨earlier, Nat.lt_succ_of_lt hlt, made, hmade, hmadeRef.trans href, hrest⟩
        · exact ⟨time, Nat.lt_succ_self time, placement, hmem, rfl, hdecided,
            fun _ _ hvalue => World.inputsFor_measured (hobserves time) hnew hvalue⟩

namespace Sample

/-- Every NodeState has a reporter that measures the same hit rate each pass. -/
def measuringReports : NodeReports := fun _ _ _ =>
  .reporter (measuring (some ⟨0x3f000000#32⟩) "instant")

def measuredSnapshot : Snapshot where
  states := [{ nodeState "a" false with
    status := (NodeHistory.state ⟨measuringReports none "a", 1⟩).status }]
  clock := ⟨5000000000, fun text => if text = "instant" then some 0 else none⟩
  nodes := some []
  allServices := some []

/-- A fleet of one replica that ranks on the signals of the last minute. -/
def horizonSteps (_ : Nat) : (String → Bool) × Round × Nat :=
  (fun _ => false,
    round { spec 1 1 1 with placement := ⟨.efficiencyAware, some 60⟩ } measuredSnapshot [], 2)

theorem recorded_signals_measured_sample :
    ∃ placement ∈ (empty.lossyAttempts metadata horizonSteps 2).placements,
      ∃ decided, placement.decidedOn = some decided ∧
        decided.signal .hitRate = some ⟨0x3f000000#32⟩ ∧ ∃ earlier < 2,
          ∃ made ∈ (empty.lossyAttempts metadata horizonSteps (earlier + 1)).placements,
            made.vllmServiceRef = placement.vllmServiceRef ∧ made.decidedOn = some decided ∧
              ∀ kind value, decided.signal kind = some value →
                (horizonSteps earlier).2.1.Measured measuringReports (fun _ _ => 1) made.nodeRef
                  kind value := by
  have hobserves : ∀ time,
      (horizonSteps time).2.1.snapshot.Observes measuringReports fun _ _ => 1 := by
    intro time state hstate
    cases List.mem_singleton.mp hstate
    rfl
  have hrecorded : ∃ placement ∈ (empty.lossyAttempts metadata horizonSteps 2).placements,
      ∃ decided ∈ placement.decidedOn, decided.signal .hitRate = some ⟨0x3f000000#32⟩ := by
    decide +kernel
  obtain ⟨placement, hmem, decided, hdecided, hvalue⟩ := hrecorded
  exact ⟨placement, hmem, decided, hdecided, hvalue,
    recorded_signals_measured metadata measuringReports empty rfl horizonSteps
      (fun _ _ _ => 1) hobserves 2 placement hmem decided hdecided⟩

end Sample

end VllmColdstartOperator
