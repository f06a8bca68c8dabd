import VllmColdstartOperator.Guarantees.Selection
import VllmColdstartOperator.FleetController.Decisions

/-!
# The efficiency signals

A signal that is invalid, or that the horizon expires, ranks as an absent one,
through a whole batch of picks.
-/

namespace VllmColdstartOperator

open Foundation Std

/-! ## Selections that cannot be told apart -/

section Related

variable {strategy strategy' : PlacementStrategy} {horizonSecs horizonSecs' : Option Int}
  {Related : NodeCandidate → NodeCandidate → Prop}

/-- Two selections cannot tell related candidates apart, before or after load. -/
structure SelectsAlike (strategy strategy' : PlacementStrategy)
    (horizonSecs horizonSecs' : Option Int) (Related : NodeCandidate → NodeCandidate → Prop) :
    Prop where
  names : ∀ {left right}, Related left right → left.name = right.name
  loaded : ∀ {left right}, Related left right → Related
    { left with
      activeServiceCount := some (left.activeServiceCount.getD 0 + 1)
      ownReplicas := left.ownReplicas + 1 }
    { right with
      activeServiceCount := some (right.activeServiceCount.getD 0 + 1)
      ownReplicas := right.ownReplicas + 1 }
  selects : ∀ {candidates others}, List.Forall₂ Related candidates others →
    Option.Rel Related (selectNodeWithStrategy candidates strategy horizonSecs)
      (selectNodeWithStrategy others strategy' horizonSecs')

namespace SelectsAlike

variable (halike : SelectsAlike strategy strategy' horizonSecs horizonSecs' Related)
  {candidates others : List NodeCandidate}

include halike

theorem simulatePlacement (hrelated : List.Forall₂ Related candidates others) (name : String) :
    List.Forall₂ Related (simulatePlacement name candidates)
      (VllmColdstartOperator.simulatePlacement name others) := by
  induction hrelated with
  | nil => exact .nil
  | @cons left right lefts rights hhead htail ih =>
      rw [VllmColdstartOperator.simulatePlacement, VllmColdstartOperator.simulatePlacement]
      by_cases hname : right.name = name
      · rw [if_pos ((halike.names hhead).trans hname), if_pos hname]
        exact .cons (halike.loaded hhead) htail
      · rw [if_neg fun hleft => hname ((halike.names hhead).symm.trans hleft), if_neg hname]
        exact .cons hhead ih

theorem planPicks_eq (hrelated : List.Forall₂ Related candidates others) (slots : Nat) :
    planPicks strategy horizonSecs slots candidates =
      planPicks strategy' horizonSecs' slots others := by
  induction slots generalizing candidates others with
  | zero => rfl
  | succ slots ih =>
      rw [planPicks, planPicks]
      have hselected := halike.selects hrelated
      generalize selectNodeWithStrategy candidates strategy horizonSecs = selected at hselected ⊢
      generalize selectNodeWithStrategy others strategy' horizonSecs' = selected' at hselected ⊢
      cases hselected with
      | none => rfl
      | some hsame =>
          dsimp only
          rw [halike.names hsame, ih (halike.simulatePlacement hrelated _)]

theorem selectReplacementNode_eq (hrelated : List.Forall₂ Related candidates others)
    (preemptedNode : String) :
    selectReplacementNode candidates preemptedNode strategy horizonSecs =
      selectReplacementNode others preemptedNode strategy' horizonSecs' := by
  have hselected := halike.selects (List.rel_filter
    (p := fun candidate : NodeCandidate => decide (candidate.name ≠ preemptedNode))
    (q := fun candidate : NodeCandidate => decide (candidate.name ≠ preemptedNode))
    (fun left right hsame => by simp [halike.names hsame]) hrelated)
  rw [selectReplacementNode, selectReplacementNode]
  generalize selectNodeWithStrategy (candidates.filter _) strategy horizonSecs = selected
    at hselected ⊢
  generalize selectNodeWithStrategy (others.filter _) strategy' horizonSecs' = selected'
    at hselected ⊢
  cases hselected with
  | none => rfl
  | some hsame => exact congrArg some (halike.names hsame)

end SelectsAlike

end Related

/-! ## Unusable signals -/

def hitRateDomain (rate : F32) : Bool := rate.isFinite && rate.atLeastZero && rate.atMostOne

def tokensPerJouleDomain (tokens : F32) : Bool := tokens.isFinite && tokens.atLeastZero

/-- Absent or outside the domain, or, with a horizon, undated, of the future or
too old. -/
def Unusable (domain : F32 → Bool) (horizonSecs : Option Int) (value : Option F32)
    (ageSecs : Option Int) : Prop :=
  (∀ present, value = some present → domain present = false) ∨
    ∃ horizon, horizonSecs = some horizon ∧ ∀ age, ageSecs = some age → age < 0 ∨ horizon < age

/-- An unusable signal is made absent; a usable one may get another usable age. -/
def SignalSanitised (domain : F32 → Bool) (horizonSecs : Option Int)
    (value value' : Option F32) (ageSecs ageSecs' : Option Int) : Prop :=
  (Unusable domain horizonSecs value ageSecs ∧ value' = none) ∨
    (¬ Unusable domain horizonSecs value ageSecs ∧
      ¬ Unusable domain horizonSecs value' ageSecs' ∧ value' = value)

def NodeCandidate.withoutEfficiency (candidate : NodeCandidate) : NodeCandidate :=
  { candidate with
    kvCacheHitRate := none
    kvCacheHitRateAgeSecs := none
    tokensPerJoule := none
    tokensPerJouleAgeSecs := none }

def NodeCandidate.withoutAges (candidate : NodeCandidate) : NodeCandidate :=
  { candidate with
    kvCacheHitRateAgeSecs := none
    tokensPerJouleAgeSecs := none }

def SameButEfficiency (left right : NodeCandidate) : Prop :=
  left.withoutEfficiency = right.withoutEfficiency

def SameButAges (left right : NodeCandidate) : Prop := left.withoutAges = right.withoutAges

structure Sanitised (horizonSecs : Option Int) (left right : NodeCandidate) : Prop where
  others : SameButEfficiency left right
  hitRate : SignalSanitised hitRateDomain horizonSecs left.kvCacheHitRate right.kvCacheHitRate
    left.kvCacheHitRateAgeSecs right.kvCacheHitRateAgeSecs
  tokensPerJoule : SignalSanitised tokensPerJouleDomain horizonSecs left.tokensPerJoule
    right.tokensPerJoule left.tokensPerJouleAgeSecs right.tokensPerJouleAgeSecs

/-- What the comparators read of a candidate is the same. -/
structure ReadsAlike (horizonSecs : Option Int) (left right : NodeCandidate) : Prop where
  others : SameButEfficiency left right
  hitRate : freshHitRate left horizonSecs = freshHitRate right horizonSecs
  tokensPerJoule : freshTokensPerJoule left horizonSecs = freshTokensPerJoule right horizonSecs

theorem withinHorizon_eq_false_iff {ageSecs horizonSecs : Option Int} :
    withinHorizon ageSecs horizonSecs = false ↔
      ∃ horizon, horizonSecs = some horizon ∧
        ∀ age, ageSecs = some age → age < 0 ∨ horizon < age := by
  cases horizonSecs with
  | none => simp [withinHorizon]
  | some horizon =>
      cases ageSecs with
      | none => simp [withinHorizon]
      | some age =>
          simp only [withinHorizon, Bool.decide_and, Bool.and_eq_false_iff, decide_eq_false_iff_not,
            Option.some.injEq, exists_eq_left', forall_eq']
          omega

theorem filtered_eq_none_iff {domain : F32 → Bool} {value : Option F32}
    {ageSecs horizonSecs : Option Int} :
    ((value.filter domain).filter fun _ => withinHorizon ageSecs horizonSecs) = none ↔
      Unusable domain horizonSecs value ageSecs := by
  rw [Unusable, ← withinHorizon_eq_false_iff]
  cases value with
  | none => simp
  | some present =>
      cases hdomain : domain present <;> simp [Option.filter, hdomain]

theorem SignalSanitised.filtered {domain : F32 → Bool} {horizonSecs : Option Int}
    {value value' : Option F32} {ageSecs ageSecs' : Option Int}
    (hsanitised : SignalSanitised domain horizonSecs value value' ageSecs ageSecs') :
    ((value.filter domain).filter fun _ => withinHorizon ageSecs horizonSecs) =
      (value'.filter domain).filter fun _ => withinHorizon ageSecs' horizonSecs := by
  rcases hsanitised with ⟨hunusable, rfl⟩ | ⟨husable, husable', rfl⟩
  · rw [filtered_eq_none_iff.mpr hunusable]
    rfl
  · rw [← filtered_eq_none_iff] at husable husable'
    cases value' with
    | none => rfl
    | some present =>
        cases hdomain : domain present <;>
          cases hage : withinHorizon ageSecs horizonSecs <;>
            cases hage' : withinHorizon ageSecs' horizonSecs <;>
              simp_all [Option.filter]

section Reading

variable {left right : NodeCandidate} {horizonSecs : Option Int}

theorem Sanitised.readsAlike (hsanitised : Sanitised horizonSecs left right) :
    ReadsAlike horizonSecs left right where
  others := hsanitised.others
  hitRate := hsanitised.hitRate.filtered
  tokensPerJoule := hsanitised.tokensPerJoule.filtered

theorem SameButEfficiency.fields (hsame : SameButEfficiency left right) :
    left.name = right.name ∧ left.ownReplicas = right.ownReplicas ∧
      left.warmth = right.warmth ∧ left.gpuUtilization = right.gpuUtilization ∧
      left.activeServiceCount = right.activeServiceCount := by
  simp only [SameButEfficiency, NodeCandidate.withoutEfficiency, NodeCandidate.mk.injEq] at hsame
  simp [hsame]

theorem SameButEfficiency.loaded (hsame : SameButEfficiency left right) :
    SameButEfficiency
      { left with
        activeServiceCount := some (left.activeServiceCount.getD 0 + 1)
        ownReplicas := left.ownReplicas + 1 }
      { right with
        activeServiceCount := some (right.activeServiceCount.getD 0 + 1)
        ownReplicas := right.ownReplicas + 1 } := by
  obtain ⟨hname, hown, hwarmth, hutilization, hactive⟩ := hsame.fields
  simp [SameButEfficiency, NodeCandidate.withoutEfficiency, *]

theorem SameButAges.readsAlike (hsame : SameButAges left right) : ReadsAlike none left right := by
  simp only [SameButAges, NodeCandidate.withoutAges, NodeCandidate.mk.injEq] at hsame
  constructor
  · simp [SameButEfficiency, NodeCandidate.withoutEfficiency, hsame]
  · simp [freshHitRate, withinHorizon, hsame]
  · simp [freshTokensPerJoule, withinHorizon, hsame]

end Reading

theorem cmpWarmthFirst_congr (left left' right right' : NodeCandidate)
    (hleft : SameButEfficiency left left') (hright : SameButEfficiency right right') :
    cmpWarmthFirst left right = cmpWarmthFirst left' right' := by
  simp only [cmpWarmthFirst, cmpOwnReplicas, cmpWarmth, cmpActiveServiceCount, cmpGpuUtilization,
    hleft.fields, hright.fields]

theorem cmpEfficiencyAware_congr {horizonSecs : Option Int}
    (left left' right right' : NodeCandidate) (hleft : ReadsAlike horizonSecs left left')
    (hright : ReadsAlike horizonSecs right right') :
    cmpEfficiencyAware horizonSecs left right = cmpEfficiencyAware horizonSecs left' right' := by
  simp only [cmpEfficiencyAware, cmpOwnReplicas, cmpWarmth, cmpActiveServiceCount,
    cmpGpuUtilization, cmpTokensPerJoule, cmpHitRate, hleft.others.fields, hright.others.fields,
    hleft.hitRate, hright.hitRate, hleft.tokensPerJoule, hright.tokensPerJoule]

theorem selectsAlike_of_readsAlike (strategy : PlacementStrategy) (horizonSecs : Option Int) :
    SelectsAlike strategy strategy horizonSecs horizonSecs (ReadsAlike horizonSecs) where
  names hsame := hsame.others.fields.1
  loaded hsame :=
    { others := hsame.others.loaded, hitRate := hsame.hitRate
      tokensPerJoule := hsame.tokensPerJoule }
  selects hrelated := by
    cases strategy with
    | efficiencyAware => exact maxBy_related cmpEfficiencyAware_congr hrelated
    | warmthFirst =>
        exact maxBy_related (fun _ _ _ _ hleft hright =>
          cmpWarmthFirst_congr _ _ _ _ hleft.others hright.others) hrelated
    | unsupported => exact .none

theorem warmthFirst_selectsAlike (horizonSecs horizonSecs' : Option Int) :
    SelectsAlike .warmthFirst .warmthFirst horizonSecs horizonSecs' SameButEfficiency where
  names hsame := hsame.fields.1
  loaded hsame := hsame.loaded
  selects := maxBy_related cmpWarmthFirst_congr

/-- Every slot planned and every replacement is the same. -/
def PlacesAlike (strategy : PlacementStrategy) (horizonSecs horizonSecs' : Option Int)
    (candidates others : List NodeCandidate) : Prop :=
  (∀ slots : Int32, planInitialPlacements slots candidates strategy horizonSecs =
    planInitialPlacements slots others strategy horizonSecs') ∧
  ∀ preemptedNode, selectReplacementNode candidates preemptedNode strategy horizonSecs =
    selectReplacementNode others preemptedNode strategy horizonSecs'

theorem SelectsAlike.placesAlike {strategy : PlacementStrategy}
    {horizonSecs horizonSecs' : Option Int} {Related : NodeCandidate → NodeCandidate → Prop}
    (halike : SelectsAlike strategy strategy horizonSecs horizonSecs' Related)
    {candidates others : List NodeCandidate} (hrelated : List.Forall₂ Related candidates others) :
    PlacesAlike strategy horizonSecs horizonSecs' candidates others :=
  ⟨fun _ => halike.planPicks_eq hrelated _, halike.selectReplacementNode_eq hrelated⟩

/-- An unusable signal ranks as an absent one through every pick, and the age of
a usable one is not read; without a horizon no age is, and warmth-first reads
neither efficiency signal. -/
theorem unusable_signals_rank_as_absent (candidates others : List NodeCandidate) :
    (∀ (strategy : PlacementStrategy) (horizonSecs : Option Int),
      List.Forall₂ (Sanitised horizonSecs) candidates others →
        PlacesAlike strategy horizonSecs horizonSecs candidates others) ∧
    (∀ strategy, List.Forall₂ SameButAges candidates others →
      PlacesAlike strategy none none candidates others) ∧
    (List.Forall₂ SameButEfficiency candidates others → ∀ horizonSecs horizonSecs',
      PlacesAlike .warmthFirst horizonSecs horizonSecs' candidates others) := by
  refine ⟨fun strategy horizonSecs hsanitised => ?_, fun strategy hsame => ?_,
    fun hsame horizonSecs horizonSecs' => ?_⟩
  · exact (selectsAlike_of_readsAlike strategy horizonSecs).placesAlike
      (hsanitised.imp fun _ _ hpair => hpair.readsAlike)
  · exact (selectsAlike_of_readsAlike strategy none).placesAlike
      (hsame.imp fun _ _ hpair => hpair.readsAlike)
  · exact (warmthFirst_selectsAlike horizonSecs horizonSecs').placesAlike hsame

namespace Sample

/-- An expired rate, a fresh one, and tokens per joule that are not a number. -/
def datedNodes : List NodeCandidate :=
  [{ bareCandidate "a" with
      kvCacheHitRate := some ⟨0x3f000000#32⟩
      kvCacheHitRateAgeSecs := some 61 },
    { bareCandidate "b" with
      kvCacheHitRate := some ⟨0x3e800000#32⟩
      kvCacheHitRateAgeSecs := some 5
      tokensPerJoule := some ⟨0x7fc00000#32⟩ }]

def sanitisedNodes : List NodeCandidate :=
  [bareCandidate "a",
    { bareCandidate "b" with
      kvCacheHitRate := some ⟨0x3e800000#32⟩
      kvCacheHitRateAgeSecs := some 60 }]

theorem datedNodes_sanitised : List.Forall₂ (Sanitised (some 60)) datedNodes sanitisedNodes := by
  refine .cons ⟨rfl, .inl ⟨?_, rfl⟩, .inl ⟨?_, rfl⟩⟩
    (.cons ⟨rfl, .inr ⟨?_, ?_, rfl⟩, .inl ⟨?_, rfl⟩⟩ .nil) <;>
    rw [← filtered_eq_none_iff] <;> decide

theorem unusable_signals_rank_as_absent_sample :
    PlacesAlike .efficiencyAware (some 60) (some 60) datedNodes sanitisedNodes ∧
      planInitialPlacements 3 datedNodes .efficiencyAware (some 60) = ["b", "a", "b"] := by
  obtain ⟨hsanitised, -⟩ := unusable_signals_rank_as_absent datedNodes sanitisedNodes
  exact ⟨hsanitised _ _ datedNodes_sanitised, by decide⟩

end Sample

end VllmColdstartOperator
