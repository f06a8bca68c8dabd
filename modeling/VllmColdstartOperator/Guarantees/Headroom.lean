import VllmColdstartOperator.FleetPlanning

/-!
# Room in the counters of a batch

The planner adds one to two 32-bit counters of a node for each pick.  A batch
overflows neither exactly when no node is picked more often than both have room
for, and the picks spread until then: the own replicas of the nodes, and which of
them win the ties, say how many slots that takes.
-/

namespace VllmColdstartOperator

open Foundation

/-- Neither counter stands at the top of its type. -/
def NodeCandidate.HasRoom (candidate : NodeCandidate) : Prop :=
  candidate.activeServiceCount.getD 0 ≠ i32Max ∧ candidate.ownReplicas ≠ i32Max

/-- How many more placements both counters have room for. -/
def NodeCandidate.picksLeft (candidate : NodeCandidate) : Nat :=
  (2 ^ 31 - 1 -
    max candidate.ownReplicas.toInt (candidate.activeServiceCount.getD 0).toInt).toNat

/-- The own replicas of the node, counted from the least 32-bit value. -/
def ownLevel (working : List NodeCandidate) (name : String) : Nat :=
  ((working.find? fun candidate => candidate.name = name).map fun candidate =>
    (candidate.ownReplicas.toInt + 2 ^ 31).toNat).getD 0

/-- No node is picked at the level at which one of its counters is at the top: the
slots fit below it, every other node filled up to it, and one over if it is
preferred there. -/
def BatchFits (strategy : PlacementStrategy) (horizonSecs : Option Int) (slots : Nat)
    (working : List NodeCandidate) : Prop :=
  strategy.isSupported = true → ∀ candidate ∈ working,
    slots ≤ room (working.map NodeCandidate.name).toFinset (ownLevel working) candidate.name
      (yieldsTie strategy horizonSecs working (ownLevel working) candidate.name)
      (ownLevel working candidate.name + candidate.picksLeft)

/-- The candidates the picks of a batch load, as each stands before its pick. -/
def planLoads (strategy : PlacementStrategy) (horizonSecs : Option Int) :
    Nat → List NodeCandidate → List NodeCandidate
  | 0, _ => []
  | slots + 1, working =>
      match selectNodeWithStrategy working strategy horizonSecs with
      | none => []
      | some best =>
          (working.find? fun candidate => candidate.name = best.name).toList ++
            planLoads strategy horizonSecs slots (simulatePlacement best.name working)

theorem ne_i32Max_iff (count : Int32) : count ≠ i32Max ↔ count.toInt < 2 ^ 31 - 1 := by
  have hhigh := count.toInt_lt
  have hmax : count = i32Max ↔ count.toInt = 2 ^ 31 - 1 := by
    rw [← Int32.toInt_inj]
    rfl
  rw [Ne, hmax]
  omega

theorem toInt_succ_iff (count : Int32) :
    (count + 1).toInt = count.toInt + 1 ↔ count ≠ i32Max := by
  rw [ne_i32Max_iff]
  constructor
  · intro hexact
    have hhigh := (count + 1).toInt_lt
    omega
  · intro hroom
    have hlow := count.le_toInt
    have hone : (1 : Int32).toInt = 1 := rfl
    rw [Int32.toInt_add, hone, Int.bmod_eq_of_le] <;> omega

instance (candidate : NodeCandidate) : Decidable candidate.HasRoom :=
  inferInstanceAs (Decidable (_ ∧ _))

theorem hasRoom_iff (candidate : NodeCandidate) :
    candidate.HasRoom ↔ 0 < candidate.picksLeft := by
  rw [NodeCandidate.HasRoom, NodeCandidate.picksLeft, ne_i32Max_iff, ne_i32Max_iff]
  omega

theorem picksLeft_loadedBy {candidate : NodeCandidate} (hroom : candidate.HasRoom) :
    (candidate.loadedBy 1).picksLeft = candidate.picksLeft - 1 := by
  have hown := (toInt_succ_iff _).mpr hroom.2
  have hcount := (toInt_succ_iff _).mpr hroom.1
  change (2 ^ 31 - 1 - max (candidate.ownReplicas + 1).toInt
    (candidate.activeServiceCount.getD 0 + 1).toInt).toNat = _
  rw [hown, hcount, NodeCandidate.picksLeft]
  omega

section Batch

variable {strategy : PlacementStrategy} {horizonSecs : Option Int}
  {working : List NodeCandidate}

theorem find?_name (hnodup : (working.map NodeCandidate.name).Nodup) {candidate : NodeCandidate}
    (hmem : candidate ∈ working) :
    working.find? (fun other => other.name = candidate.name) = some candidate := by
  obtain ⟨found, hfound⟩ : ∃ found,
      working.find? (fun other => other.name = candidate.name) = some found := by
    rw [← Option.isSome_iff_exists, List.find?_isSome]
    exact ⟨candidate, hmem, decide_eq_true rfl⟩
  have hname : found.name = candidate.name := by simpa using List.find?_some hfound
  rw [hfound, List.inj_on_of_nodup_map hnodup (List.mem_of_find?_eq_some hfound) hmem hname]

theorem ownLevel_of_mem (hnodup : (working.map NodeCandidate.name).Nodup)
    {candidate : NodeCandidate} (hmem : candidate ∈ working) :
    candidate.ownReplicas.toInt + (2 ^ 31 : Nat) = ownLevel working candidate.name := by
  have hlow := candidate.ownReplicas.le_toInt
  rw [ownLevel, find?_name hnodup hmem, Option.map_some, Option.getD_some]
  omega

theorem loadedBy_nodup (hnodup : (working.map NodeCandidate.name).Nodup)
    (placed : NodeCandidate → Nat) :
    ((working.map fun candidate => candidate.loadedBy (placed candidate)).map
      NodeCandidate.name).Nodup := by
  simpa [Function.comp_def] using hnodup

theorem count_cons_le_picksLeft_iff (hnodup : (working.map NodeCandidate.name).Nodup)
    {best candidate : NodeCandidate} (hbest : best ∈ working) (hmem : candidate ∈ working)
    (hroom : best.HasRoom) (picks : List String) :
    (best.name :: picks).count candidate.name ≤ candidate.picksLeft ↔
      picks.count candidate.name ≤
        (candidate.loadedBy (if candidate.name = best.name then 1 else 0)).picksLeft := by
  by_cases hname : candidate.name = best.name
  · obtain rfl := List.inj_on_of_nodup_map hnodup hmem hbest hname
    have hpositive := (hasRoom_iff candidate).mp hroom
    rw [if_pos rfl, picksLeft_loadedBy hroom, List.count_cons_self]
    omega
  · rw [if_neg hname, loadedBy_zero, List.count_cons_of_ne (Ne.symm hname)]

theorem planLoads_hasRoom_iff (hnodup : (working.map NodeCandidate.name).Nodup) (slots : Nat) :
    (∀ loaded ∈ planLoads strategy horizonSecs slots working, loaded.HasRoom) ↔
      ∀ candidate ∈ working,
        (planPicks strategy horizonSecs slots working).count candidate.name ≤
          candidate.picksLeft := by
  induction slots generalizing working with
  | zero => simp [planLoads, planPicks]
  | succ slots ih =>
      rw [planLoads, planPicks]
      cases hbest : selectNodeWithStrategy working strategy horizonSecs with
      | none => simp
      | some best =>
          have hmem := selectNodeWithStrategy_mem hbest
          have hrest := ih (loadedBy_nodup hnodup fun candidate =>
            if candidate.name = best.name then 1 else 0)
          rw [← simulatePlacement_eq_map hnodup] at hrest
          simp only [find?_name hnodup hmem, Option.toList_some, List.singleton_append,
            List.forall_mem_cons]
          rw [hrest, simulatePlacement_eq_map hnodup, List.forall_mem_map]
          simp only [loadedBy_name]
          constructor
          · rintro ⟨hroom, hleft⟩ candidate hcandidate
            exact (count_cons_le_picksLeft_iff hnodup hmem hcandidate hroom _).mpr
              (hleft candidate hcandidate)
          · intro hleft
            have hroom : best.HasRoom := by
              have hless := hleft best hmem
              rw [List.count_cons_self] at hless
              exact (hasRoom_iff best).mpr (by omega)
            refine ⟨hroom, fun candidate hcandidate => ?_⟩
            exact (count_cons_le_picksLeft_iff hnodup hmem hcandidate hroom _).mp
              (hleft candidate hcandidate)

theorem planPicks_spreads_of_room (hnodup : (working.map NodeCandidate.name).Nodup) {slots : Nat}
    (hleft : ∀ before pick after,
      planPicks strategy horizonSecs slots working = before ++ pick :: after →
        ∀ candidate ∈ working, before.count candidate.name ≤ candidate.picksLeft) :
    Spreads (working.map NodeCandidate.name).toFinset (ownLevel working)
      (planPicks strategy horizonSecs slots working) := by
  refine planPicks_spreads_of_fits hnodup (fun candidate hmem => ownLevel_of_mem hnodup hmem)
    fun before pick after hsplit candidate hmem => ?_
  have hless := hleft before pick after hsplit candidate hmem
  have hhigh := candidate.ownReplicas.toInt_lt
  unfold NodeCandidate.picksLeft at hless
  omega

theorem count_le_picksLeft_iff (hsupported : strategy.isSupported = true)
    (hnodup : (working.map NodeCandidate.name).Nodup) {slots : Nat}
    (hspreads : Spreads (working.map NodeCandidate.name).toFinset (ownLevel working)
      (planPicks strategy horizonSecs slots working))
    {candidate : NodeCandidate} (hmem : candidate ∈ working) :
    (planPicks strategy horizonSecs slots working).count candidate.name ≤ candidate.picksLeft ↔
      slots ≤ room (working.map NodeCandidate.name).toFinset (ownLevel working) candidate.name
        (yieldsTie strategy horizonSecs working (ownLevel working) candidate.name)
        (ownLevel working candidate.name + candidate.picksLeft) := by
  have hplace : candidate.name ∈ (working.map NodeCandidate.name).toFinset :=
    List.mem_toFinset.mpr (List.mem_map_of_mem hmem)
  have hfits := count_le_iff_le_room hplace hspreads
    (planPicks_settlesTies hnodup candidate.name)
    (Nat.le_add_right (ownLevel working candidate.name) candidate.picksLeft)
  rwa [planPicks_length hsupported slots (List.ne_nil_of_mem hmem),
    Nat.add_le_add_iff_left] at hfits

/-- The batch fits exactly when it picks no node more often than its counters allow. -/
theorem batchFits_iff (hnodup : (working.map NodeCandidate.name).Nodup) (slots : Nat) :
    BatchFits strategy horizonSecs slots working ↔
      ∀ candidate ∈ working,
        (planPicks strategy horizonSecs slots working).count candidate.name ≤
          candidate.picksLeft := by
  cases hsupported : strategy.isSupported with
  | false =>
      have hnone : planPicks strategy horizonSecs slots working = [] := by
        cases strategy with
        | unsupported => cases slots <;> rfl
        | warmthFirst => cases hsupported
        | efficiencyAware => cases hsupported
      simp [BatchFits, hsupported, hnone]
  | true =>
      constructor
      · intro hfits
        -- one pick more spreads when those before it fit
        have hparts : ∀ first ≤ slots, ∀ candidate ∈ working,
            (planPicks strategy horizonSecs first working).count candidate.name ≤
              candidate.picksLeft := by
          intro first
          induction first with
          | zero => simp [planPicks]
          | succ first ih =>
              intro hfirst candidate hmem
              have hne : working ≠ [] := List.ne_nil_of_mem hmem
              have hspreads : Spreads (working.map NodeCandidate.name).toFinset
                  (ownLevel working) (planPicks strategy horizonSecs (first + 1) working) := by
                refine planPicks_spreads_of_room hnodup ?_
                intro before pick after hsplit other hother
                have hlength := @planPicks_length strategy horizonSecs hsupported (first + 1)
                  working hne
                have hbefore : before <+: planPicks strategy horizonSecs first working := by
                  rw [← planPicks_take hsupported (Nat.le_succ first), hsplit]
                  rw [hsplit, List.length_append, List.length_cons] at hlength
                  exact List.prefix_take_iff.mpr ⟨List.prefix_append _ _, by omega⟩
                exact (hbefore.sublist.count_le _).trans (ih (by omega) other hother)
              rw [count_le_picksLeft_iff hsupported hnodup hspreads hmem]
              exact hfirst.trans (hfits hsupported candidate hmem)
        exact hparts slots le_rfl
      · intro hcounts _ candidate hmem
        have hspreads := planPicks_spreads_of_room hnodup
          fun before pick after hsplit other hother => by
            have hcount : before.count other.name ≤
                (planPicks strategy horizonSecs slots working).count other.name := by
              rw [hsplit, List.count_append]
              exact Nat.le_add_right _ _
            exact hcount.trans (hcounts other hother)
        exact (count_le_picksLeft_iff hsupported hnodup hspreads hmem).mp (hcounts candidate hmem)

theorem planLoads_hasRoom_iff_batchFits (hnodup : (working.map NodeCandidate.name).Nodup)
    (slots : Nat) :
    (∀ loaded ∈ planLoads strategy horizonSecs slots working, loaded.HasRoom) ↔
      BatchFits strategy horizonSecs slots working :=
  (planLoads_hasRoom_iff hnodup slots).trans (batchFits_iff hnodup slots).symm

/-! ## The build with overflow checks -/

theorem simulatePlacementChecked_eq {name : String} {loaded : NodeCandidate}
    (hfind : working.find? (fun candidate => candidate.name = name) = some loaded) :
    simulatePlacementChecked name working =
      if loaded.HasRoom then some (simulatePlacement name working) else none := by
  induction working with
  | nil => simp at hfind
  | cons candidate rest ih =>
      rw [simulatePlacementChecked, simulatePlacement]
      by_cases hname : candidate.name = name
      · obtain rfl : candidate = loaded := by simpa [hname] using hfind
        by_cases hcount : candidate.activeServiceCount.getD 0 = i32Max
        · simp [hname, checkedSucc, NodeCandidate.HasRoom, hcount]
        · by_cases hown : candidate.ownReplicas = i32Max
          · simp [hname, checkedSucc, NodeCandidate.HasRoom, hown]
          · simp [hname, checkedSucc, NodeCandidate.HasRoom, hcount, hown]
      · rw [if_neg hname, if_neg hname, ih (by simpa [hname] using hfind)]
        by_cases hroom : loaded.HasRoom
        · simp [hroom]
        · simp [hroom]

/-- The build with overflow checks plans the batch, as the other does, exactly when
every pick loads a candidate with room. -/
theorem planPicksChecked_eq_some_iff (hnodup : (working.map NodeCandidate.name).Nodup)
    (slots : Nat) :
    planPicksChecked strategy horizonSecs slots working =
        some (planPicks strategy horizonSecs slots working) ↔
      ∀ loaded ∈ planLoads strategy horizonSecs slots working, loaded.HasRoom := by
  induction slots generalizing working with
  | zero => simp [planPicksChecked, planPicks, planLoads]
  | succ slots ih =>
      rw [planPicksChecked, planPicks, planLoads]
      cases hbest : selectNodeWithStrategy working strategy horizonSecs with
      | none => simp
      | some best =>
          have hfind := find?_name hnodup (selectNodeWithStrategy_mem hbest)
          have hrest := @ih (simulatePlacement best.name working) (by simpa using hnodup)
          simp only [hfind, Option.toList_some, List.singleton_append, List.forall_mem_cons]
          rw [simulatePlacementChecked_eq hfind]
          by_cases hroom : best.HasRoom
          · rw [if_pos hroom, ← hrest, Option.bind_eq_bind, Option.bind_some]
            cases planPicksChecked strategy horizonSecs slots
                (simulatePlacement best.name working) with
            | none => simp
            | some picks => simp [hroom]
          · simp [hroom]

end Batch

end VllmColdstartOperator
