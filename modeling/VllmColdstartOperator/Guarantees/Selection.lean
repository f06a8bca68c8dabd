import VllmColdstartOperator.FleetController.Candidates

/-!
# The node a strategy selects

Both strategies select a maximum of one total preorder.  `noBetterWarmthFirst`
and `noBetterEfficiencyAware` spell the preorders out tier by tier: a candidate
is no better than another in the first tier and, when they are level there, no
better in the next.  An absent value is worse than any present one.
-/

namespace VllmColdstartOperator

open Foundation Std

def PlacementStrategy.comparator (strategy : PlacementStrategy) (horizonSecs : Option Int) :
    NodeCandidate → NodeCandidate → Ordering :=
  match strategy with
  | .efficiencyAware => cmpEfficiencyAware horizonSecs
  | .warmthFirst => cmpWarmthFirst
  | .unsupported => fun _ _ => .eq

instance comparator_trans (strategy : PlacementStrategy) (horizonSecs : Option Int) :
    TransCmp (strategy.comparator horizonSecs) :=
  match strategy with
  | .efficiencyAware => cmpEfficiencyAware_trans horizonSecs
  | .warmthFirst => cmpWarmthFirst_trans
  | .unsupported => { eq_swap := rfl, isLE_trans := fun _ _ => rfl }

theorem selectNodeWithStrategy_eq_maxBy {strategy : PlacementStrategy}
    (hsupported : strategy.isSupported = true) (candidates : List NodeCandidate)
    (horizonSecs : Option Int) :
    selectNodeWithStrategy candidates strategy horizonSecs =
      maxBy (strategy.comparator horizonSecs) candidates := by
  cases strategy with
  | efficiencyAware => rfl
  | warmthFirst => rfl
  | unsupported => cases hsupported

/-! ## Tiers -/

def noHigher (left right : F32) : Prop := left.totalKey ≤ right.totalKey

theorem noHigher_iff_magnitude {left right : F32} (hleft : left.sign = false)
    (hright : right.sign = false) : noHigher left right ↔ left.magnitude ≤ right.magnitude := by
  rw [noHigher, F32.totalKey_of_sign_false hleft, F32.totalKey_of_sign_false hright]
  exact Int.ofNat_le

/-- A present value takes a present one no worse. -/
def Matched {α : Type} (noBetter : α → α → Prop) (left right : Option α) : Prop :=
  ∀ value, left = some value → ∃ other, right = some other ∧ noBetter value other

def noBetterWarmthFirst (other best : NodeCandidate) : Prop :=
  best.ownReplicas ≤ other.ownReplicas ∧ (other.ownReplicas = best.ownReplicas →
    warmthRank other.warmth ≤ warmthRank best.warmth ∧ (other.warmth = best.warmth →
      Matched (fun count lower => lower ≤ count) other.activeServiceCount
        best.activeServiceCount ∧ (other.activeServiceCount = best.activeServiceCount →
          Matched (fun utilization lower => noHigher lower utilization)
            (validGpuUtilization other.gpuUtilization)
            (validGpuUtilization best.gpuUtilization))))

def noBetterEfficiencyAware (horizonSecs : Option Int) (other best : NodeCandidate) : Prop :=
  best.ownReplicas ≤ other.ownReplicas ∧ (other.ownReplicas = best.ownReplicas →
    warmthRank other.warmth ≤ warmthRank best.warmth ∧ (other.warmth = best.warmth →
      Matched noHigher (freshTokensPerJoule other horizonSecs)
        (freshTokensPerJoule best horizonSecs) ∧
      (freshTokensPerJoule other horizonSecs = freshTokensPerJoule best horizonSecs →
        Matched noHigher (freshHitRate other horizonSecs) (freshHitRate best horizonSecs) ∧
        (freshHitRate other horizonSecs = freshHitRate best horizonSecs →
          Matched (fun utilization lower => noHigher lower utilization)
            (validGpuUtilization other.gpuUtilization)
            (validGpuUtilization best.gpuUtilization) ∧
          (validGpuUtilization other.gpuUtilization = validGpuUtilization best.gpuUtilization →
            Matched (fun count lower => lower ≤ count) other.activeServiceCount
              best.activeServiceCount)))))

def PlacementStrategy.noBetter (strategy : PlacementStrategy) (horizonSecs : Option Int) :
    NodeCandidate → NodeCandidate → Prop :=
  match strategy with
  | .efficiencyAware => noBetterEfficiencyAware horizonSecs
  | .warmthFirst => noBetterWarmthFirst
  | .unsupported => fun _ _ => True

theorem warmthRank_injective {left right : Warmth} (hrank : warmthRank left = warmthRank right) :
    left = right := by
  cases left <;> cases right <;> first | rfl | cases hrank

section Tiers

variable {left right : NodeCandidate} {horizonSecs : Option Int}

theorem cmpOwnReplicas_isLE : (cmpOwnReplicas left right).isLE = true ↔
    right.ownReplicas ≤ left.ownReplicas := isLE_compare

theorem cmpOwnReplicas_eq : cmpOwnReplicas left right = .eq ↔
    left.ownReplicas = right.ownReplicas := by
  rw [cmpOwnReplicas, Std.compare_eq_iff_eq, eq_comm]

theorem cmpWarmth_isLE : (cmpWarmth left right).isLE = true ↔
    warmthRank left.warmth ≤ warmthRank right.warmth := isLE_compare

theorem cmpWarmth_eq : cmpWarmth left right = .eq ↔ left.warmth = right.warmth := by
  rw [cmpWarmth, Std.compare_eq_iff_eq]
  exact ⟨warmthRank_injective, congrArg warmthRank⟩

theorem cmpSignal_isLE {first second : Option F32} :
    (cmpSignal first second).isLE = true ↔ Matched noHigher first second := by
  rw [cmpSignal, presentAbove_isLE_iff]
  simp only [F32.totalCmp, isLE_compare, Matched, noHigher]

theorem cmpSignal_eq {first second : Option F32} :
    cmpSignal first second = .eq ↔ first = second :=
  presentAbove_eq_iff fun _ _ => F32.totalCmp_eq_iff

theorem cmpSignalLower_isLE {first second : Option F32} :
    (cmpSignalLower first second).isLE = true ↔
      Matched (fun value lower => noHigher lower value) first second := by
  rw [cmpSignalLower, presentAbove_isLE_iff]
  simp only [F32.totalCmp, isLE_compare, Matched, noHigher]

theorem cmpSignalLower_eq {first second : Option F32} :
    cmpSignalLower first second = .eq ↔ first = second :=
  presentAbove_eq_iff fun _ _ => F32.totalCmp_eq_iff.trans eq_comm

theorem cmpCountLower_isLE {first second : Option Int32} :
    (cmpCountLower first second).isLE = true ↔
      Matched (fun count lower => lower ≤ count) first second := by
  rw [cmpCountLower, presentAbove_isLE_iff]
  simp only [isLE_compare, Matched]

theorem cmpCountLower_eq {first second : Option Int32} :
    cmpCountLower first second = .eq ↔ first = second :=
  presentAbove_eq_iff fun _ _ => Std.compare_eq_iff_eq.trans eq_comm

theorem cmpWarmthFirst_isLE :
    (cmpWarmthFirst left right).isLE = true ↔ noBetterWarmthFirst left right := by
  rw [cmpWarmthFirst, isLE_then_iff, isLE_then_iff, isLE_then_iff, cmpOwnReplicas_isLE,
    cmpOwnReplicas_eq, cmpWarmth_isLE, cmpWarmth_eq, cmpActiveServiceCount, cmpCountLower_isLE,
    cmpCountLower_eq, cmpGpuUtilization, cmpSignalLower_isLE]
  rfl

theorem cmpEfficiencyAware_isLE :
    (cmpEfficiencyAware horizonSecs left right).isLE = true ↔
      noBetterEfficiencyAware horizonSecs left right := by
  rw [cmpEfficiencyAware, isLE_then_iff, isLE_then_iff, isLE_then_iff, isLE_then_iff,
    isLE_then_iff, cmpOwnReplicas_isLE, cmpOwnReplicas_eq, cmpWarmth_isLE, cmpWarmth_eq,
    cmpTokensPerJoule, cmpSignal_isLE, cmpSignal_eq, cmpHitRate, cmpSignal_isLE, cmpSignal_eq,
    cmpGpuUtilization, cmpSignalLower_isLE, cmpSignalLower_eq, cmpActiveServiceCount,
    cmpCountLower_isLE]
  rfl

end Tiers

theorem comparator_isLE {strategy : PlacementStrategy} {horizonSecs : Option Int}
    {left right : NodeCandidate} :
    (strategy.comparator horizonSecs left right).isLE = true ↔
      strategy.noBetter horizonSecs left right := by
  cases strategy with
  | efficiencyAware => exact cmpEfficiencyAware_isLE
  | warmthFirst => exact cmpWarmthFirst_isLE
  | unsupported => simp [PlacementStrategy.comparator, PlacementStrategy.noBetter]

/-- The comparator of a strategy is a total preorder, and the candidate selected
is a maximum of it.  Whatever the order of the list, the one selected is level
with it, and the same one when no two candidates are level. -/
theorem selection_is_maximum (strategy : PlacementStrategy)
    (hsupported : strategy.isSupported = true) (horizonSecs : Option Int) :
    let cmp := strategy.comparator horizonSecs
    (∀ left, cmp left left = .eq) ∧
    (∀ left right, (cmp left right).isLE = true ∨ (cmp right left).isLE = true) ∧
    (∀ left middle right, (cmp left middle).isLE = true → (cmp middle right).isLE = true →
      (cmp left right).isLE = true) ∧
    ∀ candidates : List NodeCandidate, candidates ≠ [] →
      ∃ best, selectNodeWithStrategy candidates strategy horizonSecs = some best ∧
        best ∈ candidates ∧ (∀ other ∈ candidates, strategy.noBetter horizonSecs other best) ∧
        ∀ others, candidates.Perm others →
          ∃ winner, selectNodeWithStrategy others strategy horizonSecs = some winner ∧
            cmp best winner = .eq ∧
            (candidates.Pairwise (fun left right => cmp left right ≠ .eq) → winner = best) := by
  intro cmp
  refine ⟨fun _ => ReflCmp.compare_self, fun left right => ?_,
    fun _ _ _ => TransCmp.isLE_trans, fun candidates hne => ?_⟩
  · exact (isLE_total cmp).total left right
  · obtain ⟨best, hbest⟩ := maxBy_isSome cmp hne
    have hmem := maxBy_mem cmp hbest
    refine ⟨best, ?_, hmem, fun other hother => ?_, fun others hperm => ?_⟩
    · rw [selectNodeWithStrategy_eq_maxBy hsupported]
      exact hbest
    · exact comparator_isLE.mp (maxBy_isMax cmp hbest other hother)
    · have hothers : others ≠ [] := fun hnil => hne (hnil ▸ hperm).eq_nil
      obtain ⟨winner, hwinner⟩ := maxBy_isSome cmp hothers
      refine ⟨winner, ?_, maxBy_perm cmp hperm hbest hwinner, fun hdistinct => ?_⟩
      · rw [selectNodeWithStrategy_eq_maxBy hsupported]
        exact hwinner
      · exact maxBy_perm_of_distinct cmp hperm hdistinct hbest hwinner

namespace Sample

/-- Two warm nodes, one of them with a NaN utilization, and a cold one. -/
def rankedNodes : List NodeCandidate :=
  [{ bareCandidate "a" with warmth := .warm, gpuUtilization := some ⟨0x7fc00000#32⟩ },
    { bareCandidate "b" with warmth := .warm, gpuUtilization := some ⟨0x3f000000#32⟩ },
    bareCandidate "c"]

theorem selection_is_maximum_sample :
    ∃ best, selectNodeWithStrategy rankedNodes .warmthFirst none = some best ∧
      best.name = "b" ∧
      ∀ other ∈ rankedNodes, PlacementStrategy.warmthFirst.noBetter none other best := by
  obtain ⟨-, -, -, hselected⟩ := selection_is_maximum .warmthFirst rfl none
  obtain ⟨best, hbest, -, hranked, -⟩ := hselected rankedNodes (by decide)
  refine ⟨best, hbest, ?_, hranked⟩
  have hname : (selectNodeWithStrategy rankedNodes .warmthFirst none).map NodeCandidate.name =
      some "b" := by decide
  rw [hbest] at hname
  exact Option.some.inj hname

end Sample

end VllmColdstartOperator
