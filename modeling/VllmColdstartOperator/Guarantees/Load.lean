import VllmColdstartOperator.Guarantees.Spread
import VllmColdstartOperator.Guarantees.Headroom

/-!
# Bookkeeping of load

The load of a node is a 32-bit count another process reports.  The controller
adds the fleet's own placements to it and the planner one for each pick, with
plain additions.  A sum within the type is exact and never makes the node look
less loaded; beyond it the count wraps to the least value.
-/

namespace VllmColdstartOperator

open Foundation Std

/-! ## Exact sums -/

/-- A candidate whose count is the exact sum of the one before and what was placed. -/
def NodeCandidate.CountRaised (before after : NodeCandidate) (placed : Nat) : Prop :=
  ∃ count, after.activeServiceCount = some count ∧
    count.toInt = (before.activeServiceCount.getD 0).toInt + placed

/-- A present count never reads as a lighter load than before. -/
def NodeCandidate.NotLighter (before after : NodeCandidate) : Prop :=
  before.activeServiceCount.isSome = true → cmpActiveServiceCount after before ≠ .gt

theorem NodeCandidate.CountRaised.notLighter {before after : NodeCandidate} {placed : Nat}
    (hraised : before.CountRaised after placed) : before.NotLighter after := by
  intro hpresent
  obtain ⟨count, hcount, hsum⟩ := hraised
  obtain ⟨held, hheld⟩ := Option.isSome_iff_exists.mp hpresent
  rw [hheld, Option.getD_some] at hsum
  rw [cmpActiveServiceCount, cmpCountLower, hcount, hheld, presentAbove]
  have hle : held ≤ count := Int32.le_iff_toInt_le.mpr (by omega)
  exact Ordering.ne_gt_iff_isLE.mpr (isLE_compare.mpr hle)

theorem toInt_add_nat {count : Int32} {placed : Nat}
    (hfits : count.toInt + placed < 2 ^ 31) (hplaced : placed < 2 ^ 31) :
    (count + Int32.ofNat placed).toInt = count.toInt + placed := by
  have hlow := count.le_toInt
  rw [Int32.toInt_add, Int32.toInt_ofNat_of_lt hplaced, Int.bmod_eq_of_le] <;> omega

/-! ## The fold of the own placements -/

theorem foldOwnLoad_count {ownCounts : BTreeMap String Int32}
    {derivedWarmth : BTreeMap String Warmth} {candidate : NodeCandidate} {own : Nat}
    (hown : (ownCounts[candidate.name]?).getD 0 = Int32.ofNat own) :
    (foldOwnLoad ownCounts derivedWarmth candidate).activeServiceCount =
      if 0 < Int32.ofNat own then
        some (candidate.activeServiceCount.getD 0 + Int32.ofNat own)
      else candidate.activeServiceCount := by
  rw [foldOwnLoad, hown]

theorem ofNat_pos_of_lt {own : Nat} (hpos : 0 < own) (hlt : own < 2 ^ 31) :
    0 < Int32.ofNat own := by
  rw [Int32.lt_iff_toInt_lt, Int32.toInt_ofNat_of_lt hlt]
  exact Int.natCast_pos.mpr hpos

/-- A wrapped count of own placements is folded as no load, or beyond the type. -/
theorem countRaised_fold_iff {ownCounts : BTreeMap String Int32}
    (derivedWarmth : BTreeMap String Warmth) {candidate : NodeCandidate} {own : Nat}
    (hown : (ownCounts[candidate.name]?).getD 0 = Int32.ofNat own) (hpos : 0 < own) :
    candidate.CountRaised (foldOwnLoad ownCounts derivedWarmth candidate) own ↔
      own < 2 ^ 31 ∧ (candidate.activeServiceCount.getD 0).toInt + own < 2 ^ 31 := by
  rw [NodeCandidate.CountRaised, foldOwnLoad_count hown]
  have hlow := (candidate.activeServiceCount.getD 0).le_toInt
  constructor
  · rintro ⟨count, hcount, hsum⟩
    have hbound := count.toInt_lt
    split at hcount
    next hload =>
      refine ⟨?_, by omega⟩
      -- a wrapped own count is positive only from one whole period on
      by_contra hlarge
      have hwrapped := Int32.lt_iff_toInt_lt.mp hload
      rw [Int32.toInt_ofNat'] at hwrapped
      have hzero : (0 : Int32).toInt = 0 := rfl
      have hperiod : 2 ^ 32 ≤ own := by
        by_contra hsmall
        have hsize : (Int32.size : Int) = 2 ^ 32 := rfl
        rw [Int.bmod_def, hsize] at hwrapped
        omega
      omega
    next hload =>
      rw [hcount, Option.getD_some] at hsum
      omega
  · rintro ⟨hlt, hfits⟩
    rw [if_pos (ofNat_pos_of_lt hpos hlt)]
    exact ⟨_, rfl, toInt_add_nat hfits hlt⟩

namespace ReconcileInput

/-- Every candidate's count is folded exactly, and no node with a present count
looks lighter for it. -/
def FoldsExactly (input : ReconcileInput) : Prop :=
  ∀ pooled ∈ input.poolCandidates,
    (input.existingPins pooled.name = 0 →
      (foldOwnLoad input.ownCounts input.derivedWarmth pooled).activeServiceCount =
        pooled.activeServiceCount) ∧
    (0 < input.existingPins pooled.name →
      pooled.CountRaised (foldOwnLoad input.ownCounts input.derivedWarmth pooled)
        (input.existingPins pooled.name) ∧
      pooled.NotLighter (foldOwnLoad input.ownCounts input.derivedWarmth pooled))

theorem foldsExactly_iff (input : ReconcileInput) :
    input.FoldsExactly ↔ ∀ pooled ∈ input.poolCandidates, 0 < input.existingPins pooled.name →
      input.existingPins pooled.name < 2 ^ 31 ∧
        (pooled.activeServiceCount.getD 0).toInt + input.existingPins pooled.name < 2 ^ 31 := by
  refine forall₂_congr fun pooled _ => ?_
  have hown := ownPlacementsPerNode_lookup input.current pooled.name
  constructor
  · rintro ⟨-, hraised⟩ hpos
    exact (countRaised_fold_iff _ hown hpos).mp (hraised hpos).1
  · intro hfits
    refine ⟨fun hzero => ?_, fun hpos => ?_⟩
    · have hcount := @foldOwnLoad_count _ input.derivedWarmth _ _ hown
      change (input.current.toList.map Prod.snd).count pooled.name = 0 at hzero
      rw [hzero] at hcount
      exact hcount
    · have hraised := (countRaised_fold_iff input.derivedWarmth hown hpos).mpr
        (hfits hpos)
      exact ⟨hraised, hraised.notLighter⟩

end ReconcileInput

/-! ## The load the planner simulates -/

section Batch

variable {strategy : PlacementStrategy} {horizonSecs : Option Int}

theorem find?_simulatePlacement (name other : String) (working : List NodeCandidate) :
    (simulatePlacement name working).find? (fun candidate => candidate.name = other) =
      (working.find? fun candidate => candidate.name = other).map
        (NodeCandidate.loadedBy (if name = other then 1 else 0)) := by
  induction working with
  | nil => rfl
  | cons candidate rest ih =>
      rw [simulatePlacement]
      by_cases hname : candidate.name = name
      · rw [if_pos hname]
        by_cases hother : name = other
        · simp [hname, hother, NodeCandidate.loadedBy]
        · have hskip : candidate.name ≠ other := fun h => hother (hname.symm.trans h)
          simp only [List.find?_cons, hskip, decide_false, if_neg hother]
          cases rest.find? (fun candidate => candidate.name = other) <;> rfl
      · rw [if_neg hname, List.find?_cons, List.find?_cons, ih]
        by_cases hother : candidate.name = other
        · have hne : name ≠ other := fun h => hname (hother.trans h.symm)
          simp [hother, if_neg hne]
        · simp [hother]

theorem find?_selected {working : List NodeCandidate} {best : NodeCandidate}
    (hbest : selectNodeWithStrategy working strategy horizonSecs = some best) :
    ∃ loaded, working.find? (fun candidate => candidate.name = best.name) = some loaded ∧
      loaded.name = best.name := by
  obtain ⟨loaded, hfind⟩ : ∃ loaded, working.find?
      (fun candidate => candidate.name = best.name) = some loaded := by
    rw [← Option.isSome_iff_exists, List.find?_isSome]
    exact ⟨best, selectNodeWithStrategy_mem hbest, decide_eq_true rfl⟩
  exact ⟨loaded, hfind, by simpa using List.find?_some hfind⟩

/-- Every pick loads one candidate, of the name picked. -/
theorem planLoads_names (slots : Nat) (working : List NodeCandidate) :
    (planLoads strategy horizonSecs slots working).map NodeCandidate.name =
      planPicks strategy horizonSecs slots working := by
  induction slots generalizing working with
  | zero => rfl
  | succ slots ih =>
      rw [planLoads, planPicks]
      cases hbest : selectNodeWithStrategy working strategy horizonSecs with
      | none => rfl
      | some best =>
          obtain ⟨loaded, hfind, hname⟩ := find?_selected hbest
          simp only [hfind, Option.toList_some, List.map_cons, ih, hname, List.singleton_append]

/-- The exact sums a load makes of a candidate that had some picks already. -/
structure ExactLoad (original loaded : NodeCandidate) (placed : Nat) : Prop where
  count : original.CountRaised (loaded.loadedBy 1) (placed + 1)
  own : (loaded.loadedBy 1).ownReplicas.toInt = original.ownReplicas.toInt + (placed + 1)
  notLighter : loaded.NotLighter (loaded.loadedBy 1)

/-- Every pick adds to the first candidate of its name, and its counts are exact
sums of what the batch placed there. -/
def PlansExactly (strategy : PlacementStrategy) (horizonSecs : Option Int) (slots : Nat)
    (working : List NodeCandidate) : Prop :=
  ∀ before loaded after, planLoads strategy horizonSecs slots working =
      before ++ loaded :: after →
    ∃ original, working.find? (fun candidate => candidate.name = loaded.name) = some original ∧
      ExactLoad original loaded ((before.map NodeCandidate.name).count loaded.name)

theorem exactLoad_of_hasRoom {candidate : NodeCandidate} (hroom : candidate.HasRoom) :
    ExactLoad candidate candidate 0 := by
  have hraised : candidate.CountRaised (candidate.loadedBy 1) 1 :=
    ⟨_, rfl, (toInt_succ_iff _).mpr hroom.1⟩
  exact ⟨hraised, (toInt_succ_iff _).mpr hroom.2, hraised.notLighter⟩

theorem ExactLoad.hasRoom {original loaded : NodeCandidate} {placed : Nat}
    (hexact : ExactLoad original loaded placed) : loaded.HasRoom := by
  have hwrap : (i32Max + 1).toInt = -2 ^ 31 := by decide
  constructor
  · intro hmax
    obtain ⟨count, hcount, hsum⟩ := hexact.count
    rw [NodeCandidate.loadedBy, if_neg Nat.one_ne_zero] at hcount
    rw [hmax, Option.some.injEq] at hcount
    have hlow := (original.activeServiceCount.getD 0).le_toInt
    rw [← hcount] at hsum
    change (i32Max + 1).toInt = _ at hsum
    omega
  · intro hmax
    have hsum := hexact.own
    have hlow := original.ownReplicas.le_toInt
    rw [loadedBy_ownReplicas, hmax] at hsum
    change (i32Max + 1).toInt = _ at hsum
    omega

theorem ExactLoad.after {original loaded : NodeCandidate} {placed : Nat}
    (hroom : original.HasRoom) (hexact : ExactLoad (original.loadedBy 1) loaded placed) :
    ExactLoad original loaded (placed + 1) := by
  have hfirst := exactLoad_of_hasRoom hroom
  obtain ⟨count, hcount, hsum⟩ := hexact.count
  obtain ⟨base, hbase, hone⟩ := hfirst.count
  refine ⟨⟨count, hcount, ?_⟩, ?_, hexact.notLighter⟩
  · rw [hbase, Option.getD_some] at hsum
    omega
  · have hown := hexact.own
    have hownOne := hfirst.own
    omega

theorem plansExactly_iff (slots : Nat) (working : List NodeCandidate) :
    PlansExactly strategy horizonSecs slots working ↔
      ∀ loaded ∈ planLoads strategy horizonSecs slots working, loaded.HasRoom := by
  constructor
  · intro hexact loaded hmem
    obtain ⟨before, after, hsplit⟩ := List.append_of_mem hmem
    obtain ⟨original, -, hload⟩ := hexact before loaded after hsplit
    exact hload.hasRoom
  · induction slots generalizing working with
    | zero =>
        intro _ before loaded after hsplit
        simp [planLoads] at hsplit
    | succ slots ih =>
        intro hroom before loaded after hsplit
        rw [planLoads] at hroom hsplit
        cases hbest : selectNodeWithStrategy working strategy horizonSecs with
        | none => simp [hbest] at hsplit
        | some best =>
            simp only [hbest] at hroom hsplit
            obtain ⟨first, hfind, hname⟩ := find?_selected hbest
            rw [hfind, Option.toList_some, List.singleton_append] at hroom hsplit
            cases before with
            | nil =>
                obtain ⟨rfl, -⟩ := List.cons.inj hsplit
                exact ⟨first, hname.symm ▸ hfind,
                  exactLoad_of_hasRoom (hroom first List.mem_cons_self)⟩
            | cons head before =>
                obtain ⟨rfl, hrest⟩ := List.cons.inj hsplit
                obtain ⟨later, hlater, hexact⟩ := ih (simulatePlacement best.name working)
                  (fun other hother => hroom other (List.mem_cons_of_mem _ hother))
                  before loaded after hrest
                rw [find?_simulatePlacement] at hlater
                obtain ⟨original, horiginal, rfl⟩ := Option.map_eq_some_iff.mp hlater
                refine ⟨original, horiginal, ?_⟩
                rw [List.map_cons, List.count_cons]
                by_cases hsame : best.name = loaded.name
                · rw [if_pos hsame] at hexact
                  have horiginal : first = original := by
                    rw [hsame, horiginal] at hfind
                    exact (Option.some.inj hfind).symm
                  subst horiginal
                  rw [hname, hsame, if_pos (beq_self_eq_true _)]
                  exact hexact.after (hroom first List.mem_cons_self)
                · rw [if_neg hsame, loadedBy_zero] at hexact
                  rw [hname, if_neg (by simpa using hsame)]
                  exact hexact

end Batch

/-- The fleet's own placements are folded exactly when each sum fits the count's
type, and a batch is simulated exactly when its slots fit below the tops of the
nodes' counters. -/
theorem load_is_exact_iff (input : ReconcileInput)
    (hnodes : ∀ nodes, input.snapshot.nodes = some nodes → (nodes.map Node.name).Nodup) :
    (input.FoldsExactly ↔ ∀ pooled ∈ input.poolCandidates,
      0 < input.existingPins pooled.name → input.existingPins pooled.name < 2 ^ 31 ∧
        (pooled.activeServiceCount.getD 0).toInt + input.existingPins pooled.name < 2 ^ 31) ∧
    ∀ slots : Nat, PlansExactly input.strategy input.horizonSecs slots input.healthyCandidates ↔
      BatchFits input.strategy input.horizonSecs slots input.healthyCandidates :=
  ⟨input.foldsExactly_iff, fun slots => (plansExactly_iff slots input.healthyCandidates).trans
    (planLoads_hasRoom_iff_batchFits (ReconcileInput.healthyCandidates_nodup hnodes) slots)⟩

namespace Sample

def lightlyLoaded : ReconcileInput := ⟨fleetOfOne, snapshot ["n"] [], [childOn "n"]⟩

theorem lightlyLoaded_nodes (nodes : List Node) (hread : lightlyLoaded.snapshot.nodes = some nodes) :
    (nodes.map Node.name).Nodup := by
  cases hread
  exact List.nodup_nil

/-- Three more slots beside one child leave every sum exact. -/
theorem load_is_exact_iff_sample : lightlyLoaded.FoldsExactly ∧
    PlansExactly lightlyLoaded.strategy lightlyLoaded.horizonSecs 3
      lightlyLoaded.healthyCandidates := by
  obtain ⟨hfolds, hplans⟩ := load_is_exact_iff lightlyLoaded lightlyLoaded_nodes
  refine ⟨hfolds.mpr (by decide +kernel), (hplans 3).mpr fun _ => ?_⟩
  decide +kernel

/-- A node that reports the greatest count, and holds a child of the fleet. -/
def saturated : ReconcileInput where
  fleet := fleetOfOne
  snapshot := { snapshot [] [] with
    states := [{
      metadata := ⟨"n", none, "", none, []⟩
      status := some ⟨0, "", .cold, none, none, some i32Max, none, none, none, none, none, none,
        ⟨false, false, ""⟩⟩ }] }
  existing := [childOn "n"]

/-- The child makes the node look like the least loaded one there is. -/
theorem saturated_wraps :
    saturated.existing.filterMap slotPin = [(0, "n")] ∧
      saturated.poolCandidates.map NodeCandidate.activeServiceCount = [some i32Max] ∧
      saturated.candidates.map NodeCandidate.activeServiceCount = [some (-2147483648)] ∧
      ∀ pooled ∈ saturated.poolCandidates,
        cmpActiveServiceCount (foldOwnLoad saturated.ownCounts saturated.derivedWarmth pooled)
          pooled = .gt := by
  decide +kernel

end Sample

end VllmColdstartOperator
