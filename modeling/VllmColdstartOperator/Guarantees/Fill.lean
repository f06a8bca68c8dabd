import VllmColdstartOperator.Guarantees.Headroom
import VllmColdstartOperator.Guarantees.Selection

/-!
# How a batch fills the nodes

The planner fills evenly as long as its 32-bit counters do.  The best node is
meant on the exact counts: the own replicas and the active services of each
candidate, with the earlier picks of the batch on it.
-/

namespace VllmColdstartOperator

open Foundation Std

/-- The fleet's replicas on a candidate, the earlier picks counted. -/
def NodeCandidate.filled (candidate : NodeCandidate) (picks : List String) : Int :=
  candidate.ownReplicas.toInt + picks.count candidate.name

/-- The active services of a candidate, the earlier picks counted: an unmeasured
node is one that carries its picks. -/
def NodeCandidate.carried (candidate : NodeCandidate) (picks : List String) : Option Int :=
  if picks.count candidate.name = 0 then candidate.activeServiceCount.map Int32.toInt
  else some ((candidate.activeServiceCount.getD 0).toInt + picks.count candidate.name)

/-- No better in the tiers after the own replicas, the earlier picks counted. -/
def PlacementStrategy.noBetterCarried (strategy : PlacementStrategy) (horizonSecs : Option Int)
    (picks : List String) (other best : NodeCandidate) : Prop :=
  match strategy with
  | .warmthFirst =>
      warmthRank other.warmth ≤ warmthRank best.warmth ∧ (other.warmth = best.warmth →
        Matched (fun count lower => lower ≤ count) (other.carried picks) (best.carried picks) ∧
        (other.carried picks = best.carried picks →
          Matched (fun utilization lower => noHigher lower utilization)
            (validGpuUtilization other.gpuUtilization)
            (validGpuUtilization best.gpuUtilization)))
  | .efficiencyAware =>
      warmthRank other.warmth ≤ warmthRank best.warmth ∧ (other.warmth = best.warmth →
        Matched noHigher (freshTokensPerJoule other horizonSecs)
          (freshTokensPerJoule best horizonSecs) ∧
        (freshTokensPerJoule other horizonSecs = freshTokensPerJoule best horizonSecs →
          Matched noHigher (freshHitRate other horizonSecs) (freshHitRate best horizonSecs) ∧
          (freshHitRate other horizonSecs = freshHitRate best horizonSecs →
            Matched (fun utilization lower => noHigher lower utilization)
              (validGpuUtilization other.gpuUtilization)
              (validGpuUtilization best.gpuUtilization) ∧
            (validGpuUtilization other.gpuUtilization = validGpuUtilization best.gpuUtilization →
              Matched (fun count lower => lower ≤ count) (other.carried picks)
                (best.carried picks)))))
  | .unsupported => True

/-- The pick is one of the least filled candidates, and no other of them is better
in the further tiers. -/
def PicksBest (strategy : PlacementStrategy) (horizonSecs : Option Int)
    (candidates : List NodeCandidate) (before : List String) (pick : String) : Prop :=
  ∃ best ∈ candidates, best.name = pick ∧ ∀ other ∈ candidates,
    best.filled before ≤ other.filled before ∧
      (other.filled before = best.filled before →
        strategy.noBetterCarried horizonSecs before other best)

/-- Every slot is planned, each on the best candidate, and the nodes picked end at
most one replica above the others, in a build with overflow checks as well. -/
structure FillsEvenly (strategy : PlacementStrategy) (horizonSecs : Option Int)
    (candidates : List NodeCandidate) (slots : Int32) : Prop where
  checked : planInitialPlacementsChecked slots candidates strategy horizonSecs =
    some (planInitialPlacements slots candidates strategy horizonSecs)
  length : (planInitialPlacements slots candidates strategy horizonSecs).length =
    if candidates = [] then 0 else (max slots.toInt 0).toNat
  mem : ∀ name ∈ planInitialPlacements slots candidates strategy horizonSecs,
    ∃ candidate ∈ candidates, candidate.name = name
  best : ∀ before pick after,
    planInitialPlacements slots candidates strategy horizonSecs = before ++ pick :: after →
      PicksBest strategy horizonSecs candidates before pick
  even : ∀ placed ∈ candidates,
    placed.name ∈ planInitialPlacements slots candidates strategy horizonSecs →
    ∀ other ∈ candidates,
      placed.filled (planInitialPlacements slots candidates strategy horizonSecs) ≤
        other.filled (planInitialPlacements slots candidates strategy horizonSecs) + 1

section Picks

variable {strategy : PlacementStrategy} {horizonSecs : Option Int}
  {candidates : List NodeCandidate} {picks : List String}

/-! ## Exact counts -/

theorem loadedBy_own_of_picksLeft {candidate : NodeCandidate}
    (hleft : picks.count candidate.name ≤ candidate.picksLeft) :
    (candidate.loadedBy (picks.count candidate.name)).ownReplicas.toInt =
      candidate.filled picks := by
  have hhigh := candidate.ownReplicas.toInt_lt
  unfold NodeCandidate.picksLeft at hleft
  exact loadedBy_toInt (by omega)

theorem loadedBy_count_of_picksLeft {candidate : NodeCandidate}
    (hleft : picks.count candidate.name ≤ candidate.picksLeft) :
    (candidate.loadedBy (picks.count candidate.name)).activeServiceCount.map Int32.toInt =
      candidate.carried picks := by
  unfold NodeCandidate.loadedBy NodeCandidate.carried
  by_cases hzero : picks.count candidate.name = 0
  · rw [if_pos hzero, if_pos hzero]
  · have hlow := (candidate.activeServiceCount.getD 0).le_toInt
    have hhigh := (candidate.activeServiceCount.getD 0).toInt_lt
    unfold NodeCandidate.picksLeft at hleft
    rw [if_neg hzero, if_neg hzero, Option.map_some, Int32.toInt_add, Int32.toInt_ofNat',
      Int.add_bmod_bmod]
    change some (((candidate.activeServiceCount.getD 0).toInt +
      picks.count candidate.name).bmod (2 ^ 32)) = _
    rw [Int.bmod_eq_of_le] <;> omega

theorem matched_toInt {first second : Option Int32} :
    Matched (fun count lower => lower ≤ count) (first.map Int32.toInt)
        (second.map Int32.toInt) ↔
      Matched (fun count lower => lower ≤ count) first second := by
  simp only [Matched, Option.map_eq_some_iff, forall_exists_index, and_imp,
    forall_apply_eq_imp_iff₂, exists_exists_and_eq_and, Int32.le_iff_toInt_le]

theorem map_toInt_inj {first second : Option Int32} :
    first.map Int32.toInt = second.map Int32.toInt ↔ first = second :=
  (Option.map_injective fun _ _ => Int32.toInt_inj.mp).eq_iff

theorem loadedBy_eq (placed : Nat) (candidate : NodeCandidate) :
    candidate.loadedBy placed = { candidate with
      activeServiceCount := (candidate.loadedBy placed).activeServiceCount
      ownReplicas := (candidate.loadedBy placed).ownReplicas } := by
  unfold NodeCandidate.loadedBy
  split <;> rfl

theorem noBetterCarried_of_noBetter {other best : NodeCandidate}
    (hother : picks.count other.name ≤ other.picksLeft)
    (hbest : picks.count best.name ≤ best.picksLeft)
    (hnoBetter : strategy.noBetter horizonSecs (other.loadedBy (picks.count other.name))
      (best.loadedBy (picks.count best.name)))
    (hlevel : other.filled picks = best.filled picks) :
    strategy.noBetterCarried horizonSecs picks other best := by
  have hown : (other.loadedBy (picks.count other.name)).ownReplicas =
      (best.loadedBy (picks.count best.name)).ownReplicas := by
    rw [← Int32.toInt_inj, loadedBy_own_of_picksLeft hother, loadedBy_own_of_picksLeft hbest,
      hlevel]
  have hotherCount := loadedBy_count_of_picksLeft hother
  have hbestCount := loadedBy_count_of_picksLeft hbest
  rw [loadedBy_eq _ other, loadedBy_eq _ best] at hnoBetter
  cases strategy with
  | unsupported => trivial
  | warmthFirst =>
      obtain ⟨hwarmth, hrest⟩ := hnoBetter.2 hown
      refine ⟨hwarmth, fun hsame => ?_⟩
      rw [← hotherCount, ← hbestCount, matched_toInt, map_toInt_inj]
      exact hrest hsame
  | efficiencyAware =>
      obtain ⟨hwarmth, hrest⟩ := hnoBetter.2 hown
      refine ⟨hwarmth, fun hsame => ?_⟩
      rw [← hotherCount, ← hbestCount, matched_toInt]
      exact hrest hsame

/-! ## The picks -/

theorem selected_noBetter (hsupported : strategy.isSupported = true)
    {working : List NodeCandidate} {best : NodeCandidate}
    (hbest : selectNodeWithStrategy working strategy horizonSecs = some best)
    {other : NodeCandidate} (hother : other ∈ working) :
    strategy.noBetter horizonSecs other best := by
  rw [selectNodeWithStrategy_eq_maxBy hsupported] at hbest
  exact comparator_isLE.mp (maxBy_isMax _ hbest other hother)

theorem picksBest_of_picksLeft (hsupported : strategy.isSupported = true)
    (hnodup : (candidates.map NodeCandidate.name).Nodup) {slots : Nat}
    {before after : List String} {pick : String}
    (hsplit : planPicks strategy horizonSecs slots candidates = before ++ pick :: after)
    (hleft : ∀ candidate ∈ candidates, before.count candidate.name ≤ candidate.picksLeft) :
    PicksBest strategy horizonSecs candidates before pick := by
  obtain ⟨selected, hselected, hname⟩ := planPicks_split hnodup hsplit
  obtain ⟨best, hbest, rfl⟩ := List.mem_map.mp (selectNodeWithStrategy_mem hselected)
  rw [loadedBy_name] at hname
  refine ⟨best, hbest, hname, fun other hother => ?_⟩
  have hmem := List.mem_map_of_mem (f := fun candidate : NodeCandidate =>
    candidate.loadedBy (before.count candidate.name)) hother
  have hle := selectNodeWithStrategy_ownReplicas_le hselected hmem
  rw [loadedBy_own_of_picksLeft (hleft best hbest),
    loadedBy_own_of_picksLeft (hleft other hother)] at hle
  exact ⟨hle, noBetterCarried_of_noBetter (hleft other hother) (hleft best hbest)
    (selected_noBetter hsupported hselected hmem)⟩

theorem even_of_picksBest (hnodup : (candidates.map NodeCandidate.name).Nodup)
    (hbest : ∀ before pick after, picks = before ++ pick :: after →
      PicksBest strategy horizonSecs candidates before pick)
    {placed : NodeCandidate} (hplaced : placed ∈ candidates) (hpicked : placed.name ∈ picks)
    {other : NodeCandidate} (hother : other ∈ candidates) :
    placed.filled picks ≤ other.filled picks + 1 := by
  -- the last pick of the node, after which it is not filled further
  obtain ⟨before, after, hsplit, hlast⟩ :
      ∃ before after, picks = before ++ placed.name :: after ∧ placed.name ∉ after := by
    obtain ⟨front, back, hreverse, hfirst⟩ :=
      List.eq_append_cons_of_mem (List.mem_reverse.mpr hpicked)
    refine ⟨back.reverse, front.reverse, ?_, by simpa using hfirst⟩
    rw [← List.reverse_reverse picks, hreverse]
    simp
  obtain ⟨best, hmem, hname, hleast⟩ := hbest before placed.name after hsplit
  have hsame : best = placed := List.inj_on_of_nodup_map hnodup hmem hplaced hname
  subst hsame
  have hbelow := (hleast other hother).1
  have hplacedCount : picks.count best.name = before.count best.name + 1 := by
    rw [hsplit, List.count_append, List.count_cons_self, List.count_eq_zero_of_not_mem hlast]
  have hotherCount : before.count other.name ≤ picks.count other.name := by
    rw [hsplit, List.count_append]
    exact Nat.le_add_right _ _
  unfold NodeCandidate.filled at hbelow ⊢
  omega

end Picks

/-- A batch fills evenly exactly when its slots fit below the tops of the nodes'
counters. -/
theorem fills_evenly_iff {strategy : PlacementStrategy} (hsupported : strategy.isSupported = true)
    (horizonSecs : Option Int) {candidates : List NodeCandidate}
    (hnodup : (candidates.map NodeCandidate.name).Nodup) (slots : Int32) :
    FillsEvenly strategy horizonSecs candidates slots ↔
      BatchFits strategy horizonSecs slots.toInt.toNat candidates := by
  have hroom := @planLoads_hasRoom_iff_batchFits strategy horizonSecs _ hnodup slots.toInt.toNat
  have hchecked := @planPicksChecked_eq_some_iff strategy horizonSecs _ hnodup slots.toInt.toNat
  constructor
  · intro hfills
    exact hroom.mp (hchecked.mp hfills.checked)
  · intro hfits
    have hlength : (planInitialPlacements slots candidates strategy horizonSecs).length =
        if candidates = [] then 0 else (max slots.toInt 0).toNat := by
      by_cases hnone : candidates = []
      · rw [if_pos hnone, planInitialPlacements, hnone, planPicks_nil]
        rfl
      · rw [if_neg hnone, planInitialPlacements, planPicks_length hsupported _ hnone]
        omega
    have hbest : ∀ before pick after,
        planInitialPlacements slots candidates strategy horizonSecs = before ++ pick :: after →
          PicksBest strategy horizonSecs candidates before pick := by
      intro before pick after hsplit
      refine picksBest_of_picksLeft hsupported hnodup hsplit fun candidate hmem => ?_
      have hcount := (batchFits_iff hnodup slots.toInt.toNat).mp hfits candidate hmem
      rw [planInitialPlacements] at hsplit
      rw [hsplit, List.count_append] at hcount
      omega
    exact ⟨hchecked.mpr (hroom.mpr hfits), hlength, fun _ hname =>
      List.mem_map.mp (planPicks_mem hname), hbest, fun _ hplaced hpicked _ hother =>
      even_of_picksBest hnodup hbest hplaced hpicked hother⟩

namespace Sample

theorem fills_evenly_iff_sample :
    FillsEvenly .warmthFirst none [bareCandidate "a", bareCandidate "b"] 3 := by
  refine (fills_evenly_iff rfl none (by decide) 3).mpr fun _ => ?_
  decide

/-- A node at the largest count of active services, empty of the fleet's replicas. -/
def busiest : NodeCandidate :=
  { bareCandidate "a" with activeServiceCount := some i32Max }

def quiet : NodeCandidate :=
  { bareCandidate "b" with activeServiceCount := some 0, ownReplicas := 1 }

theorem busiest_wraps :
    planInitialPlacements 2 [busiest, quiet] .warmthFirst none = ["a", "a"] ∧
      planInitialPlacementsChecked 2 [busiest, quiet] .warmthFirst none = none := by
  decide

/-- Level in the fleet's replicas after the first slot, the busier node takes the
second one as well. -/
theorem fills_evenly_counterexample :
    ¬ ∀ (strategy : PlacementStrategy) (horizonSecs : Option Int)
      (candidates : List NodeCandidate) (slots : Int32), strategy.isSupported = true →
      (candidates.map NodeCandidate.name).Nodup →
      FillsEvenly strategy horizonSecs candidates slots := by
  intro hfills
  obtain ⟨best, hmem, hname, hleast⟩ := (hfills .warmthFirst none [busiest, quiet] 2 rfl
    (by decide)).best ["a"] "a" [] busiest_wraps.1
  obtain rfl : best = busiest := by
    rcases List.mem_pair.mp hmem with rfl | rfl
    · rfl
    · exact absurd hname (by decide)
  have hlighter := ((hleast quiet (by simp)).2 (by decide)).2 rfl
  obtain ⟨count, hcount, hle⟩ := hlighter.1 0 (by decide)
  have hfull : busiest.carried ["a"] = some (2 ^ 31) := by decide
  rw [hfull] at hcount
  cases hcount
  exact absurd hle (by decide)

end Sample

end VllmColdstartOperator
