import VllmColdstartOperator.Guarantees.Signals

/-!
# What a candidate was ranked on

The code states it twice more beside the comparator: as the key under which two
candidates are to be indistinguishable, and as the record of a decision.  The
key leaves out the own replicas and the horizon, the record leaves out the
validity filters and the strategy.
-/

namespace VllmColdstartOperator

open Foundation Std

/-! ## The comparison key -/

def OppositeZeros (left right : Option F32) : Prop :=
  ∃ zero other, left = some zero ∧ right = some other ∧
    zero.isZero = true ∧ other.isZero = true ∧ zero ≠ other

/-- The ranking tells two validated signals apart although they are equal as
numbers: the horizon expires one of them, or they are zeros of both signs. -/
def RankedApart (left right : Option F32) (fresh fresh' : Bool) : Prop :=
  (left ≠ none ∧ fresh ≠ fresh') ∨ (fresh = true ∧ fresh' = true ∧ OppositeZeros left right)

/-- Neither of the two is ranked on, or both are with the same bits. -/
def RankedLevel (left right : Option F32) (fresh fresh' : Bool) : Prop :=
  ((left = none ∨ fresh = false) ∧ (right = none ∨ fresh' = false)) ∨
    (fresh = true ∧ fresh' = true ∧ left = right)

def NodeCandidate.freshHit (candidate : NodeCandidate) (horizonSecs : Option Int) : Bool :=
  withinHorizon candidate.kvCacheHitRateAgeSecs horizonSecs

def NodeCandidate.freshTokens (candidate : NodeCandidate) (horizonSecs : Option Int) : Bool :=
  withinHorizon candidate.tokensPerJouleAgeSecs horizonSecs

/-- Level in all the key holds, and yet ranked apart. -/
structure KeyMerges (horizonSecs : Option Int) (left right : NodeCandidate) : Prop where
  warmth : left.warmth = right.warmth
  hitRate : signalEq (validHitRate left.kvCacheHitRate) (validHitRate right.kvCacheHitRate) = true
  tokensPerJoule : signalEq (validTokensPerJoule left.tokensPerJoule)
    (validTokensPerJoule right.tokensPerJoule) = true
  utilization : signalEq (validGpuUtilization left.gpuUtilization)
    (validGpuUtilization right.gpuUtilization) = true
  activeServiceCount : left.activeServiceCount = right.activeServiceCount
  apart : left.ownReplicas ≠ right.ownReplicas ∨
    OppositeZeros (validGpuUtilization left.gpuUtilization)
      (validGpuUtilization right.gpuUtilization) ∨
    RankedApart (validTokensPerJoule left.tokensPerJoule)
      (validTokensPerJoule right.tokensPerJoule) (left.freshTokens horizonSecs)
      (right.freshTokens horizonSecs) ∨
    RankedApart (validHitRate left.kvCacheHitRate) (validHitRate right.kvCacheHitRate)
      (left.freshHit horizonSecs) (right.freshHit horizonSecs)

/-- Level in every tier, with efficiency signals that differ past the horizon. -/
structure KeySplits (horizonSecs : Option Int) (left right : NodeCandidate) : Prop where
  ownReplicas : left.ownReplicas = right.ownReplicas
  warmth : left.warmth = right.warmth
  utilization : validGpuUtilization left.gpuUtilization = validGpuUtilization right.gpuUtilization
  activeServiceCount : left.activeServiceCount = right.activeServiceCount
  hitRate : RankedLevel (validHitRate left.kvCacheHitRate) (validHitRate right.kvCacheHitRate)
    (left.freshHit horizonSecs) (right.freshHit horizonSecs)
  tokensPerJoule : RankedLevel (validTokensPerJoule left.tokensPerJoule)
    (validTokensPerJoule right.tokensPerJoule) (left.freshTokens horizonSecs)
    (right.freshTokens horizonSecs)
  differ : signalEq (validHitRate left.kvCacheHitRate) (validHitRate right.kvCacheHitRate) = false ∨
    signalEq (validTokensPerJoule left.tokensPerJoule)
      (validTokensPerJoule right.tokensPerJoule) = false

def AllFinite (value : Option F32) : Prop :=
  ∀ present, value = some present → present.isFinite = true

theorem allFinite_validHitRate (value : Option F32) : AllFinite (validHitRate value) := by
  intro present hpresent
  simp only [validHitRate, Option.filter_eq_some_iff, Bool.and_eq_true] at hpresent
  exact hpresent.2.1.1

theorem allFinite_validTokensPerJoule (value : Option F32) :
    AllFinite (validTokensPerJoule value) := by
  intro present hpresent
  simp only [validTokensPerJoule, Option.filter_eq_some_iff, Bool.and_eq_true] at hpresent
  exact hpresent.2.1

theorem allFinite_validGpuUtilization (value : Option F32) :
    AllFinite (validGpuUtilization value) := by
  intro present hpresent
  simp only [validGpuUtilization, Option.filter_eq_some_iff, Bool.and_eq_true] at hpresent
  exact hpresent.2.1

section Level

variable {left right : Option F32} {fresh fresh' : Bool}

theorem signalEq_iff (hleft : AllFinite left) (hright : AllFinite right) :
    signalEq left right = true ↔ left = right ∨ OppositeZeros left right := by
  cases left with
  | none => cases right <;> simp [signalEq, OppositeZeros]
  | some first =>
      cases right with
      | none => simp [signalEq, OppositeZeros]
      | some second =>
          have hfirst := hleft first rfl
          have hsecond := hright second rfl
          simp only [F32.isFinite, decide_eq_true_eq] at hfirst hsecond
          have hnumbers : first.magnitude ≤ 0x7f800000 ∧ second.magnitude ≤ 0x7f800000 := by omega
          by_cases hsame : first = second
          · simp [signalEq, F32.numEq, hsame, hnumbers]
          · simp [signalEq, F32.numEq, OppositeZeros, hsame, hnumbers]

theorem rankedLevel_iff :
    (left.filter fun _ => fresh) = (right.filter fun _ => fresh') ↔
      RankedLevel left right fresh fresh' := by
  cases left <;> cases right <;> cases fresh <;> cases fresh' <;> simp [RankedLevel, Option.filter]

theorem oppositeZeros_iff (hequal : left = right ∨ OppositeZeros left right) :
    OppositeZeros left right ↔ left ≠ right := by
  constructor
  · rintro ⟨zero, other, hzero, hother, -, -, hne⟩ hsame
    exact hne (Option.some.inj (hzero.symm.trans (hsame.trans hother)))
  · exact hequal.resolve_left

theorem rankedApart_iff (hequal : left = right ∨ OppositeZeros left right) :
    RankedApart left right fresh fresh' ↔ ¬ RankedLevel left right fresh fresh' := by
  rw [RankedApart, oppositeZeros_iff hequal]
  rcases hequal with rfl | hzeros
  · cases left <;> cases fresh <;> cases fresh' <;> simp [RankedLevel]
  · obtain ⟨zero, other, rfl, rfl, -, -, hne⟩ := hzeros
    cases fresh <;> cases fresh' <;> simp [RankedLevel, hne]

end Level

variable {horizonSecs : Option Int} {left right : NodeCandidate}

theorem cmpEfficiencyAware_eq :
    cmpEfficiencyAware horizonSecs left right = .eq ↔
      left.ownReplicas = right.ownReplicas ∧ left.warmth = right.warmth ∧
        RankedLevel (validTokensPerJoule left.tokensPerJoule)
          (validTokensPerJoule right.tokensPerJoule) (left.freshTokens horizonSecs)
          (right.freshTokens horizonSecs) ∧
        RankedLevel (validHitRate left.kvCacheHitRate) (validHitRate right.kvCacheHitRate)
          (left.freshHit horizonSecs) (right.freshHit horizonSecs) ∧
        validGpuUtilization left.gpuUtilization = validGpuUtilization right.gpuUtilization ∧
        left.activeServiceCount = right.activeServiceCount := by
  rw [cmpEfficiencyAware, Ordering.then_eq_eq, Ordering.then_eq_eq, Ordering.then_eq_eq,
    Ordering.then_eq_eq, Ordering.then_eq_eq, cmpOwnReplicas_eq, cmpWarmth_eq, cmpTokensPerJoule,
    cmpHitRate, cmpSignal_eq, cmpSignal_eq, cmpGpuUtilization, cmpSignalLower_eq,
    cmpActiveServiceCount, cmpCountLower_eq, ← rankedLevel_iff, ← rankedLevel_iff]
  rfl

theorem keyEq_comparisonKey :
    keyEq (comparisonKey left) (comparisonKey right) = true ↔
      left.warmth = right.warmth ∧
        signalEq (validHitRate left.kvCacheHitRate) (validHitRate right.kvCacheHitRate) = true ∧
        signalEq (validTokensPerJoule left.tokensPerJoule)
          (validTokensPerJoule right.tokensPerJoule) = true ∧
        signalEq (validGpuUtilization left.gpuUtilization)
          (validGpuUtilization right.gpuUtilization) = true ∧
        left.activeServiceCount = right.activeServiceCount := by
  have hrank : warmthRank left.warmth = warmthRank right.warmth ↔ left.warmth = right.warmth :=
    ⟨warmthRank_injective, congrArg warmthRank⟩
  simp [keyEq, comparisonKey, hrank, and_assoc]

/-- Of two candidates with equal keys, what ranks them apart. -/
theorem apart_iff
    (hhit : signalEq (validHitRate left.kvCacheHitRate) (validHitRate right.kvCacheHitRate) = true)
    (htokens : signalEq (validTokensPerJoule left.tokensPerJoule)
      (validTokensPerJoule right.tokensPerJoule) = true)
    (hutilization : signalEq (validGpuUtilization left.gpuUtilization)
      (validGpuUtilization right.gpuUtilization) = true) :
    (left.ownReplicas ≠ right.ownReplicas ∨
      OppositeZeros (validGpuUtilization left.gpuUtilization)
        (validGpuUtilization right.gpuUtilization) ∨
      RankedApart (validTokensPerJoule left.tokensPerJoule)
        (validTokensPerJoule right.tokensPerJoule) (left.freshTokens horizonSecs)
        (right.freshTokens horizonSecs) ∨
      RankedApart (validHitRate left.kvCacheHitRate) (validHitRate right.kvCacheHitRate)
        (left.freshHit horizonSecs) (right.freshHit horizonSecs)) ↔
    ¬ (left.ownReplicas = right.ownReplicas ∧
      RankedLevel (validTokensPerJoule left.tokensPerJoule)
        (validTokensPerJoule right.tokensPerJoule) (left.freshTokens horizonSecs)
        (right.freshTokens horizonSecs) ∧
      RankedLevel (validHitRate left.kvCacheHitRate) (validHitRate right.kvCacheHitRate)
        (left.freshHit horizonSecs) (right.freshHit horizonSecs) ∧
      validGpuUtilization left.gpuUtilization = validGpuUtilization right.gpuUtilization) := by
  rw [signalEq_iff (allFinite_validHitRate _) (allFinite_validHitRate _)] at hhit
  rw [signalEq_iff (allFinite_validTokensPerJoule _) (allFinite_validTokensPerJoule _)] at htokens
  rw [signalEq_iff (allFinite_validGpuUtilization _) (allFinite_validGpuUtilization _)]
    at hutilization
  rw [oppositeZeros_iff hutilization, rankedApart_iff htokens, rankedApart_iff hhit]
  tauto

theorem keyMerges_iff :
    KeyMerges horizonSecs left right ↔
      keyEq (comparisonKey left) (comparisonKey right) = true ∧
        cmpEfficiencyAware horizonSecs left right ≠ .eq := by
  rw [keyEq_comparisonKey, Ne, cmpEfficiencyAware_eq]
  constructor
  · rintro ⟨hwarmth, hhit, htokens, hutilization, hactive, hapart⟩
    have hranked := (apart_iff hhit htokens hutilization).mp hapart
    tauto
  · rintro ⟨⟨hwarmth, hhit, htokens, hutilization, hactive⟩, hranked⟩
    refine ⟨hwarmth, hhit, htokens, hutilization, hactive, ?_⟩
    rw [apart_iff hhit htokens hutilization]
    tauto

theorem keySplits_iff :
    KeySplits horizonSecs left right ↔
      cmpEfficiencyAware horizonSecs left right = .eq ∧
        ¬ keyEq (comparisonKey left) (comparisonKey right) = true := by
  rw [keyEq_comparisonKey, cmpEfficiencyAware_eq]
  constructor
  · rintro ⟨hown, hwarmth, hutilization, hactive, hhit, htokens, hdiffer⟩
    refine ⟨⟨hown, hwarmth, htokens, hhit, hutilization, hactive⟩, fun hkey => ?_⟩
    rcases hdiffer with hfalse | hfalse
    · exact Bool.eq_false_iff.mp hfalse hkey.2.1
    · exact Bool.eq_false_iff.mp hfalse hkey.2.2.1
  · rintro ⟨⟨hown, hwarmth, htokens, hhit, hutilization, hactive⟩, hkey⟩
    have hequal : signalEq (validGpuUtilization left.gpuUtilization)
        (validGpuUtilization right.gpuUtilization) = true :=
      (signalEq_iff (allFinite_validGpuUtilization _) (allFinite_validGpuUtilization _)).mpr
        (.inl hutilization)
    refine ⟨hown, hwarmth, hutilization, hactive, hhit, htokens, ?_⟩
    simp only [← Bool.not_eq_true]
    tauto

/-- A tie is equality of the keys exactly where the key neither merges two
candidates that are ranked apart nor splits two that tie. -/
theorem tie_iff_key_iff (horizonSecs : Option Int) (left right : NodeCandidate) :
    (cmpEfficiencyAware horizonSecs left right = .eq ↔
        keyEq (comparisonKey left) (comparisonKey right) = true) ↔
      ¬ KeyMerges horizonSecs left right ∧ ¬ KeySplits horizonSecs left right := by
  rw [keyMerges_iff, keySplits_iff]
  tauto

namespace Sample

/-- One node holds a replica of the fleet and the other does not. -/
theorem tie_counterexample :
    ¬ ∀ (horizonSecs : Option Int) (left right : NodeCandidate),
      cmpEfficiencyAware horizonSecs left right = .eq ↔
        keyEq (comparisonKey left) (comparisonKey right) = true := by
  intro htie
  have hkeys := (htie none { bareCandidate "a" with ownReplicas := 1 } (bareCandidate "b")).mpr
    (by decide)
  exact absurd hkeys (by decide)

end Sample

/-! ## The record of a decision -/

def PlacementStrategy.ranksEfficiency : PlacementStrategy → Bool
  | .efficiencyAware => true
  | _ => false

/-- The record of what the comparator of the strategy ranks a candidate on. -/
def NodeCandidate.rankedInputs (candidate : NodeCandidate) (strategy : PlacementStrategy)
    (horizonSecs : Option Int) : PlacementDecisionInputs where
  strategy := strategy.debug
  warmth := some candidate.warmth.debug
  tokensPerJoule :=
    if strategy.ranksEfficiency then freshTokensPerJoule candidate horizonSecs else none
  kvCacheHitRate := if strategy.ranksEfficiency then freshHitRate candidate horizonSecs else none
  gpuUtilization := validGpuUtilization candidate.gpuUtilization
  activeServiceCount := candidate.activeServiceCount

/-- The utilization is in its domain, and so is every efficiency signal in the
horizon, of which there is none unless the strategy ranks on them. -/
structure RecordedAsRanked (strategy : PlacementStrategy) (horizonSecs : Option Int)
    (candidate : NodeCandidate) : Prop where
  utilization : ∀ utilization, candidate.gpuUtilization = some utilization →
    utilization.isFinite = true ∧ utilization.atLeastZero = true
  hitRate : ∀ rate, candidate.kvCacheHitRate = some rate → candidate.freshHit horizonSecs = true →
    strategy.ranksEfficiency = true ∧ hitRateDomain rate = true
  tokensPerJoule : ∀ tokens, candidate.tokensPerJoule = some tokens →
    candidate.freshTokens horizonSecs = true →
      strategy.ranksEfficiency = true ∧ tokensPerJouleDomain tokens = true

theorem recorded_eq_ranked_iff (value : Option F32) (domain : F32 → Bool) (ranks fresh : Bool) :
    (value.filter fun _ => fresh) =
        (if ranks then (value.filter domain).filter fun _ => fresh else none) ↔
      ∀ present, value = some present → fresh = true → ranks = true ∧ domain present = true := by
  cases value with
  | none => cases ranks <;> simp
  | some present =>
      cases hdomain : domain present <;> cases ranks <;> cases fresh <;>
        simp [Option.filter, hdomain]

theorem validGpuUtilization_eq_iff {value : Option F32} :
    value = validGpuUtilization value ↔ ∀ utilization, value = some utilization →
      utilization.isFinite = true ∧ utilization.atLeastZero = true := by
  cases value with
  | none => simp [validGpuUtilization]
  | some utilization =>
      rw [eq_comm, validGpuUtilization, Option.filter_eq_some_iff]
      simp

section Horizon

variable (value : Option F32) (horizon age : Int)

theorem filter_unlimited (age : Option Int) :
    (value.filter fun _ => withinHorizon age none) = value := by
  cases value with
  | none => rfl
  | some value => simp [withinHorizon]

theorem filter_undated : (value.filter fun _ => withinHorizon none (some horizon)) = none := by
  cases value with
  | none => rfl
  | some value => simp [withinHorizon]

theorem filter_dated :
    (value.filter fun _ => withinHorizon (some age) (some horizon)) =
      if 0 ≤ age ∧ age ≤ horizon then value else none := by
  cases value with
  | none => simp
  | some value => simp [withinHorizon, Option.filter]

end Horizon

theorem decisionInputs_eq {candidates : List NodeCandidate} {node : String}
    {candidate : NodeCandidate} (strategy : PlacementStrategy) (horizonSecs : Option Int)
    (hfound : candidates.find? (fun candidate => candidate.name = node) = some candidate) :
    decisionInputs candidates node strategy horizonSecs =
      some { candidate.rankedInputs strategy horizonSecs with
        tokensPerJoule := candidate.tokensPerJoule.filter fun _ => candidate.freshTokens horizonSecs
        kvCacheHitRate := candidate.kvCacheHitRate.filter fun _ => candidate.freshHit horizonSecs
        gpuUtilization := candidate.gpuUtilization } := by
  rw [decisionInputs, hfound]
  simp only [NodeCandidate.freshTokens, NodeCandidate.freshHit]
  cases horizonSecs with
  | none => simp [filter_unlimited, NodeCandidate.rankedInputs]
  | some horizon =>
      cases htokens : candidate.tokensPerJouleAgeSecs with
      | none =>
          cases hhit : candidate.kvCacheHitRateAgeSecs with
          | none => simp [filter_undated, NodeCandidate.rankedInputs, htokens, hhit]
          | some age =>
              simp [filter_undated, filter_dated, NodeCandidate.rankedInputs, htokens, hhit]
      | some age =>
          cases hhit : candidate.kvCacheHitRateAgeSecs with
          | none => simp [filter_undated, filter_dated, NodeCandidate.rankedInputs, htokens, hhit]
          | some other => simp [filter_dated, NodeCandidate.rankedInputs, htokens, hhit]

theorem find_candidate {candidates : List NodeCandidate}
    (hnames : candidates.Pairwise fun left right => left.name ≠ right.name)
    {candidate : NodeCandidate} (hmem : candidate ∈ candidates) :
    candidates.find? (fun other => other.name = candidate.name) = some candidate := by
  induction hnames with
  | nil => simp at hmem
  | @cons first rest hfirst _ ih =>
      rcases List.mem_cons.mp hmem with rfl | hrest
      · simp
      · rw [List.find?_cons_of_neg (by simpa using hfirst candidate hrest)]
        exact ih hrest

/-- The record shows what the candidate was ranked on exactly where nothing it
holds would have been filtered out. -/
theorem record_is_ranked_iff {candidates : List NodeCandidate} (strategy : PlacementStrategy)
    (horizonSecs : Option Int)
    (hnames : candidates.Pairwise fun left right => left.name ≠ right.name)
    {candidate : NodeCandidate} (hmem : candidate ∈ candidates) :
    decisionInputs candidates candidate.name strategy horizonSecs =
        some (candidate.rankedInputs strategy horizonSecs) ↔
      RecordedAsRanked strategy horizonSecs candidate := by
  rw [decisionInputs_eq strategy horizonSecs (find_candidate hnames hmem), Option.some.injEq]
  simp only [NodeCandidate.rankedInputs, PlacementDecisionInputs.mk.injEq, true_and, and_true,
    freshHitRate, freshTokensPerJoule, validHitRate, validTokensPerJoule]
  rw [validGpuUtilization_eq_iff]
  have htokens := recorded_eq_ranked_iff candidate.tokensPerJoule tokensPerJouleDomain
    strategy.ranksEfficiency (candidate.freshTokens horizonSecs)
  have hhit := recorded_eq_ranked_iff candidate.kvCacheHitRate hitRateDomain
    strategy.ranksEfficiency (candidate.freshHit horizonSecs)
  constructor
  · rintro ⟨hsame, hsame', hutilization⟩
    exact ⟨hutilization, hhit.mp hsame', htokens.mp hsame⟩
  · rintro ⟨hutilization, hrate, hjoule⟩
    exact ⟨htokens.mpr hjoule, hhit.mpr hrate, hutilization⟩

namespace Sample

def efficientNode : NodeCandidate :=
  { bareCandidate "a" with tokensPerJoule := some ⟨0x3f800000#32⟩ }

theorem record_is_ranked_iff_sample :
    decisionInputs [efficientNode, bareCandidate "b"] "a" .efficiencyAware none =
      some (efficientNode.rankedInputs .efficiencyAware none) := by
  have hmem : efficientNode ∈ [efficientNode, bareCandidate "b"] := List.mem_cons_self
  refine (record_is_ranked_iff .efficiencyAware none (by decide) hmem).mpr ⟨?_, ?_, ?_⟩ <;>
    simp [efficientNode, bareCandidate, PlacementStrategy.ranksEfficiency]
  decide

/-- The default strategy does not rank on the tokens that it records. -/
theorem record_counterexample :
    ¬ ∀ (candidates : List NodeCandidate) (strategy : PlacementStrategy) (horizonSecs : Option Int),
      strategy.isSupported = true →
      candidates.Pairwise (fun left right => left.name ≠ right.name) →
      ∀ candidate ∈ candidates, decisionInputs candidates candidate.name strategy horizonSecs =
        some (candidate.rankedInputs strategy horizonSecs) := by
  intro hrecord
  have hsame := hrecord [efficientNode] .warmthFirst none rfl (by decide) efficientNode (by decide)
  exact absurd hsame (by decide)

end Sample

end VllmColdstartOperator
