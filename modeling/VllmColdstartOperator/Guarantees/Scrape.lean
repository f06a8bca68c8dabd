import VllmColdstartOperator.FleetController.Decisions
import VllmColdstartOperator.Reporter.Report

/-!
# A failed scrape

The active service count a reporter publishes is the number of targets that
answered, and the warmth-first ranking prefers the lower count.  So a round in
which a counted target does not answer makes the node look less busy.
-/

namespace VllmColdstartOperator

open Foundation Std

variable {F : Type} [Double F]

/-! ## Counting the targets that answer -/

def VllmScrape.responders (scrape : VllmScrape F) (bodies : Nat → Option String) : Nat :=
  (List.range scrape.targets.length).countP fun position =>
    (counters (F := F) (bodies position)).isSome

theorem visit_responding (sums : ScrapeSums F) (url : String) (body : Option String) :
    (sums.visit url body).responding =
      sums.responding + Int32.ofNat (if (counters (F := F) body).isSome then 1 else 0) := by
  have hvisit := congrArg (fun sums => sums.2.1) (visit_counters sums url body)
  dsimp only at hvisit
  rw [hvisit]
  cases counters (F := F) body <;> simp

theorem sample_responding (scrape : VllmScrape F) (bodies : Nat → Option String) :
    (scrape.sample bodies).2.respondingTargets = Int32.ofNat (scrape.responders bodies) := by
  have hfold : ∀ (visited : List (String × Nat)) (sums : ScrapeSums F),
      (visited.foldl (fun sums visit => sums.visit visit.1 (bodies visit.2)) sums).responding =
      sums.responding + Int32.ofNat (visited.countP fun visit =>
        (counters (F := F) (bodies visit.2)).isSome) := by
    intro visited
    induction visited with
    | nil => simp
    | cons visit visited ih =>
        intro sums
        rw [List.foldl_cons, ih, visit_responding, List.countP_cons, Nat.add_comm,
          Int32.ofNat_add, Int32.add_assoc]
  have hpositions : (scrape.targets.zipIdx.map Prod.snd) = List.range scrape.targets.length := by
    rw [List.zipIdx_map_snd, List.range_eq_range']
  change (scrape.targets.zipIdx.foldl
    (fun (sums : ScrapeSums F) visit => sums.visit visit.1 (bodies visit.2)) _).responding = _
  rw [hfold, VllmScrape.responders, ← hpositions, List.countP_map]
  exact Int32.zero_add _

def withFailures (fails : Nat → Bool) (bodies : Nat → Option String) (position : Nat) :
    Option String :=
  if fails position then none else bodies position

def VllmScrape.lost (scrape : VllmScrape F) (fails : Nat → Bool)
    (bodies : Nat → Option String) : Nat :=
  (List.range scrape.targets.length).countP fun position =>
    fails position && (counters (F := F) (bodies position)).isSome

theorem responders_withFailures (scrape : VllmScrape F) (fails : Nat → Bool)
    (bodies : Nat → Option String) :
    scrape.responders bodies =
      scrape.responders (withFailures fails bodies) + scrape.lost fails bodies := by
  rw [VllmScrape.responders, VllmScrape.responders, VllmScrape.lost]
  induction List.range scrape.targets.length with
  | nil => rfl
  | cons position positions ih =>
      rw [List.countP_cons, List.countP_cons, List.countP_cons, ih, withFailures]
      cases fails position with
      | false =>
          simp only [Bool.false_eq_true, if_false, Bool.false_and]
          omega
      | true =>
          have hnone : (counters (F := F) none).isSome = false := rfl
          simp only [if_true, Bool.true_and, hnone, Bool.false_eq_true, if_false]
          omega

theorem lost_eq_zero_iff (scrape : VllmScrape F) (fails : Nat → Bool)
    (bodies : Nat → Option String) :
    scrape.lost fails bodies = 0 ↔
      ∀ position < scrape.targets.length, fails position = true →
        counters (F := F) (bodies position) = none := by
  rw [VllmScrape.lost, List.countP_eq_zero]
  simp only [List.mem_range, Bool.and_eq_true, not_and, Bool.not_eq_true,
    Option.isSome_eq_false_iff, Option.isNone_iff_eq_none]

theorem responders_le (scrape : VllmScrape F) (bodies : Nat → Option String) :
    scrape.responders bodies ≤ scrape.targets.length := by
  have hle := @List.countP_le_length _ (fun position =>
    (counters (F := F) (bodies position)).isSome) (List.range scrape.targets.length)
  rwa [List.length_range] at hle

/-! ## The node state a round publishes -/

/-- What a pass of the loop is given besides the answers of the targets. -/
structure PassContext where
  retention : Retention
  devices : List (Option Device)
  generation : Int
  measuredAt : String
  reportTime : String

def Real.reported (real : Real F) (bodies : Nat → Option String) (context : PassContext)
    (state : NodeState) : NodeState :=
  let signals := (real.sample bodies context.devices).2
  let retention := context.retention.update signals context.measuredAt
  { state with
    status := some ((retention.patch signals context.generation context.reportTime).merge
      (state.status.getD .empty)) }

def candidateOf (state : NodeState) (clock : Clock) (ownCounts : BTreeMap String Int32)
    (derivedWarmth : BTreeMap String Warmth) : Option NodeCandidate :=
  (nodeStateToCandidate state clock).map (foldOwnLoad ownCounts derivedWarmth)

/-- Whatever the fleet and the other candidates, a node that is not chosen as
first published is not chosen as published second. -/
def NoMoreAttractive (first second : NodeState) : Prop :=
  ∀ (clock : Clock) (ownCounts : BTreeMap String Int32)
    (derivedWarmth : BTreeMap String Warmth) (before after : List NodeCandidate)
    (candidate candidate' : NodeCandidate),
    candidateOf first clock ownCounts derivedWarmth = some candidate →
    candidateOf second clock ownCounts derivedWarmth = some candidate' →
    ((before ++ candidate :: after).map NodeCandidate.name).Nodup →
    (∀ best, selectNodeForPlacement (before ++ candidate :: after) = some best →
      best.name ≠ candidate.name) →
    ∀ best, selectNodeForPlacement (before ++ candidate' :: after) = some best →
      best.name ≠ candidate'.name

/-- The fields of a candidate that the warmth-first ranking reads. -/
def NodeCandidate.warmthView (candidate : NodeCandidate) : NodeCandidate :=
  { candidate with
    kvCacheHitRate := none
    kvCacheHitRateAgeSecs := none
    tokensPerJoule := none
    tokensPerJouleAgeSecs := none }

theorem select_warmthView (candidates : List NodeCandidate) :
    selectNodeForPlacement (candidates.map NodeCandidate.warmthView) =
      (selectNodeForPlacement candidates).map NodeCandidate.warmthView :=
  maxBy_map (fun _ _ => rfl) candidates

theorem chosen_of_warmthView {before after : List NodeCandidate}
    {candidate candidate' : NodeCandidate} (hview : candidate.warmthView = candidate'.warmthView)
    {best : NodeCandidate}
    (hbest : selectNodeForPlacement (before ++ candidate' :: after) = some best) :
    ∃ same, selectNodeForPlacement (before ++ candidate :: after) = some same ∧
      same.name = best.name := by
  have hselect : (selectNodeForPlacement (before ++ candidate :: after)).map
      NodeCandidate.warmthView = some best.warmthView := by
    rw [← select_warmthView, List.map_append, List.map_cons, hview, ← List.map_cons,
      ← List.map_append, select_warmthView, hbest]
    rfl
  obtain ⟨same, hsame, hequal⟩ := Option.map_eq_some_iff.mp hselect
  have hname := congrArg NodeCandidate.name hequal
  exact ⟨same, hsame, hname⟩

section Published

variable {real : Real F} {scrape : VllmScrape F} (hscrape : real.scrape = some scrape)
  (bodies : Nat → Option String) (context : PassContext) (state : NodeState)

include hscrape

theorem reported_activeServiceCount :
    ((real.reported bodies context state).status.bind NodeStateStatus.activeServiceCount) =
      some (Int32.ofNat (scrape.responders bodies)) := by
  have hcount : ((real.sample bodies context.devices).2).activeServiceCount =
      some (scrape.sample bodies).2.respondingTargets := by
    rw [Real.sample, hscrape]
    rfl
  rw [← sample_responding, ← hcount]
  rfl

/-- What the ranking reads of a published node: the count of the targets that
answered, and the rest the same in every round. -/
theorem reported_view {clock : Clock} {candidate : NodeCandidate}
    (hcandidate : nodeStateToCandidate (real.reported bodies context state) clock =
      some candidate) :
    candidate.warmthView = {
      bareCandidate state.name with
      warmth := (state.status.getD .empty).warmth
      gpuUtilization := (real.sample (fun _ => none) context.devices).2.gpuUtilization.bind
        jsonNumber
      activeServiceCount := some (Int32.ofNat (scrape.responders bodies)) } := by
  rw [← reported_activeServiceCount hscrape bodies context state]
  cases hcandidate
  rfl

end Published

/-! ## When a failure goes unnoticed -/

theorem warmthView_foldOwnLoad (ownCounts : BTreeMap String Int32)
    (derivedWarmth : BTreeMap String Warmth) (candidate : NodeCandidate) :
    (foldOwnLoad ownCounts derivedWarmth candidate).warmthView =
      foldOwnLoad ownCounts derivedWarmth candidate.warmthView := rfl

def NodeCandidate.rival (candidate : NodeCandidate) : NodeCandidate :=
  { candidate with name := candidate.name ++ "'" }

theorem rival_name (candidate : NodeCandidate) : candidate.rival.name ≠ candidate.name := by
  intro hsame
  have hlength := congrArg String.length hsame
  simp [NodeCandidate.rival] at hlength

theorem cmpWarmthFirst_rival (candidate : NodeCandidate) :
    cmpWarmthFirst candidate candidate.rival = .eq := by
  change cmpWarmthFirst candidate candidate = .eq
  exact ReflCmp.compare_self

theorem cmpWarmthFirst_fewer {candidate candidate' : NodeCandidate} {count fewer : Int32}
    (hview : candidate'.warmthView = { candidate.warmthView with
      activeServiceCount := some fewer })
    (hcount : candidate.activeServiceCount = some count) (hfewer : fewer < count) :
    cmpWarmthFirst candidate' candidate.rival = .gt := by
  have hown : cmpOwnReplicas candidate candidate = .eq := ReflCmp.compare_self
  have hwarmth : cmpWarmth candidate candidate = .eq := ReflCmp.compare_self
  have hgt : compare count fewer = .gt := by
    by_contra hne
    have hle : count ≤ fewer := isLE_compare.mp (Ordering.isLE_iff_ne_gt.mpr hne)
    exact absurd hfewer (Int32.not_lt.mpr hle)
  change cmpWarmthFirst candidate'.warmthView candidate.rival = .gt
  rw [hview]
  change ((cmpOwnReplicas candidate candidate).then ((cmpWarmth candidate candidate).then
    ((cmpCountLower (some fewer) candidate.activeServiceCount).then _))) = .gt
  rw [hown, hwarmth, hcount]
  change ((compare count fewer).then _) = .gt
  rw [hgt]
  rfl

theorem select_pair (first second : NodeCandidate) :
    selectNodeForPlacement [first, second] =
      some (if cmpWarmthFirst first second = .gt then first else second) := rfl

section Failure

variable {real : Real F} {scrape : VllmScrape F} (hscrape : real.scrape = some scrape)
  {bodies : Nat → Option String} {fails : Nat → Bool} (context : PassContext)
  (state : NodeState)

include hscrape

theorem noMoreAttractive_of_lost_eq_zero (hlost : scrape.lost fails bodies = 0) :
    NoMoreAttractive (real.reported bodies context state)
      (real.reported (withFailures fails bodies) context state) := by
  intro clock ownCounts derivedWarmth before after candidate candidate' hfirst hsecond _ hpassed
    best hbest hname
  obtain ⟨published, hpublished, rfl⟩ := Option.map_eq_some_iff.mp hfirst
  obtain ⟨published', hpublished', rfl⟩ := Option.map_eq_some_iff.mp hsecond
  have hview : published.warmthView = published'.warmthView := by
    rw [reported_view hscrape _ _ _ hpublished, reported_view hscrape _ _ _ hpublished',
      responders_withFailures scrape fails bodies, hlost, Nat.add_zero]
  have hfolded : (foldOwnLoad ownCounts derivedWarmth published).warmthView =
      (foldOwnLoad ownCounts derivedWarmth published').warmthView := by
    rw [warmthView_foldOwnLoad, hview, warmthView_foldOwnLoad]
  obtain ⟨same, hsame, hsameName⟩ := chosen_of_warmthView hfolded hbest
  have hnames := congrArg NodeCandidate.name hfolded
  exact hpassed same hsame ((hsameName.trans hname).trans hnames.symm)

theorem lost_eq_zero_of_noMoreAttractive (hsmall : scrape.targets.length < 2 ^ 31)
    (hnever : NoMoreAttractive (real.reported bodies context state)
      (real.reported (withFailures fails bodies) context state)) :
    scrape.lost fails bodies = 0 := by
  by_contra hlost
  obtain ⟨published, hpublished⟩ : ∃ published,
      nodeStateToCandidate (real.reported bodies context state) ⟨0, fun _ => none⟩ =
        some published := ⟨_, rfl⟩
  obtain ⟨published', hpublished'⟩ : ∃ published,
      nodeStateToCandidate (real.reported (withFailures fails bodies) context state)
        ⟨0, fun _ => none⟩ = some published := ⟨_, rfl⟩
  have hview := reported_view hscrape _ _ _ hpublished
  have hview' := reported_view hscrape _ _ _ hpublished'
  have hfewer : Int32.ofNat (scrape.responders (withFailures fails bodies)) <
      Int32.ofNat (scrape.responders bodies) := by
    have hle := responders_le scrape bodies
    have hsum := responders_withFailures scrape fails bodies
    rw [Int32.lt_iff_toInt_lt, Int32.toInt_ofNat_of_lt (by omega),
      Int32.toInt_ofNat_of_lt (by omega)]
    omega
  have hempty : ∀ candidate : NodeCandidate, foldOwnLoad ∅ ∅ candidate =
      { candidate with ownReplicas := 0 } := by
    intro candidate
    simp [foldOwnLoad]
  have hcount : published.activeServiceCount = some (Int32.ofNat (scrape.responders bodies)) :=
    congrArg NodeCandidate.activeServiceCount hview
  have hwins : cmpWarmthFirst (foldOwnLoad ∅ ∅ published') (foldOwnLoad ∅ ∅ published).rival =
      .gt := by
    refine cmpWarmthFirst_fewer ?_ ?_ hfewer
    · rw [warmthView_foldOwnLoad, warmthView_foldOwnLoad, hview, hview', hempty, hempty]
    · rw [hempty]
      exact hcount
  refine hnever ⟨0, fun _ => none⟩ ∅ ∅ [] [(foldOwnLoad ∅ ∅ published).rival] _ _
    (by rw [candidateOf, hpublished]; rfl) (by rw [candidateOf, hpublished']; rfl) ?_ ?_
    (foldOwnLoad ∅ ∅ published') ?_ rfl
  · simpa using (rival_name (foldOwnLoad ∅ ∅ published)).symm
  · intro best hbest
    rw [List.nil_append, select_pair, cmpWarmthFirst_rival, if_neg (by decide),
      Option.some.injEq] at hbest
    rw [← hbest]
    exact rival_name _
  · rw [List.nil_append, select_pair, if_pos hwins]

end Failure

/-- A failed scrape goes unnoticed exactly when no target that counted fails and
not all of them do. -/
theorem failed_scrape_unnoticed_iff (real : Real F) (scrape : VllmScrape F)
    (hscrape : real.scrape = some scrape) (hsmall : scrape.targets.length < 2 ^ 31)
    (bodies : Nat → Option String) (fails : Nat → Bool) (context : PassContext)
    (state : NodeState) :
    (NoMoreAttractive (real.reported bodies context state)
        (real.reported (withFailures fails bodies) context state) ∧
      ((∀ position < scrape.targets.length, fails position = true) →
        ((real.reported (withFailures fails bodies) context state).status.bind
          NodeStateStatus.activeServiceCount) = none)) ↔
      (∀ position < scrape.targets.length, fails position = true →
        counters (F := F) (bodies position) = none) ∧
      ∃ position < scrape.targets.length, fails position = false := by
  rw [← lost_eq_zero_iff, reported_activeServiceCount hscrape]
  constructor
  · rintro ⟨hnever, habsent⟩
    refine ⟨lost_eq_zero_of_noMoreAttractive hscrape context state hsmall hnever, ?_⟩
    by_contra hall
    push Not at hall
    have hnone := habsent fun position hposition => by
      simpa using hall position hposition
    cases hnone
  · rintro ⟨hlost, position, hposition, hanswers⟩
    refine ⟨noMoreAttractive_of_lost_eq_zero hscrape context state hlost, fun hall => ?_⟩
    rw [hall position hposition] at hanswers
    cases hanswers

namespace Sample

def twoEngines : Real Whole := ⟨some (.new ["u", "v"]), none⟩

def answering (_ : Nat) : Option String :=
  some "vllm:prefix_cache_hits 1\nvllm:prefix_cache_queries 2\n"

def firstPass : PassContext := ⟨.empty, [], 1, "instant", "instant"⟩

def quietState : NodeState := ⟨⟨"node", none, "", none, []⟩, none⟩

theorem failed_scrape_unnoticed_iff_sample :
    (NoMoreAttractive (twoEngines.reported answering firstPass quietState)
        (twoEngines.reported (withFailures (fun position => position = 1) answering) firstPass
          quietState) ∧
      ((∀ position < 2, (decide (position = 1)) = true) →
        ((twoEngines.reported (withFailures (fun position => position = 1) answering) firstPass
          quietState).status.bind NodeStateStatus.activeServiceCount) = none)) ↔
      (∀ position < 2, (decide (position = 1)) = true →
        counters (F := Whole) (answering position) = none) ∧
      ∃ position < 2, (decide (position = 1)) = false :=
  failed_scrape_unnoticed_iff twoEngines (.new ["u", "v"]) rfl (by decide) answering _ firstPass
    quietState

/-- A second node with two services, after the node in the list. -/
def otherNode : NodeCandidate := { bareCandidate "other" with activeServiceCount := some 2 }

/-- With both engines answering the other node is chosen; when one of them fails,
this node is. -/
theorem failed_scrape_counterexample :
    ¬ ∀ (real : Real Whole) (scrape : VllmScrape Whole), real.scrape = some scrape →
      ∀ (bodies : Nat → Option String) (fails : Nat → Bool) (context : PassContext)
        (state : NodeState),
      (∀ position < scrape.targets.length, (bodies position).isSome = true) →
      (∃ position < scrape.targets.length, fails position = true) →
      NoMoreAttractive (real.reported bodies context state)
        (real.reported (withFailures fails bodies) context state) := by
  intro hall
  have hnever := hall twoEngines (.new ["u", "v"]) rfl answering (fun position => position = 1)
    firstPass quietState (fun _ _ => rfl) ⟨1, by decide, by decide⟩
  have hbusy : candidateOf (twoEngines.reported answering firstPass quietState)
      ⟨0, fun _ => none⟩ ∅ ∅ =
      some { bareCandidate "node" with activeServiceCount := some 2 } := by decide +kernel
  have hfailed : candidateOf (twoEngines.reported
        (withFailures (fun position => position = 1) answering) firstPass quietState)
      ⟨0, fun _ => none⟩ ∅ ∅ =
      some { bareCandidate "node" with activeServiceCount := some 1 } := by decide +kernel
  exact hnever ⟨0, fun _ => none⟩ ∅ ∅ [] [otherNode] _ _ hbusy hfailed (by decide)
    (fun best hbest => by
      have hother : selectNodeForPlacement
          [{ bareCandidate "node" with activeServiceCount := some 2 }, otherNode] =
            some otherNode := by decide
      rw [List.nil_append, hother] at hbest
      cases hbest
      decide) _ (by decide +kernel) rfl

end Sample

end VllmColdstartOperator
