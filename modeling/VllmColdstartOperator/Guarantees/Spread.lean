import VllmColdstartOperator.FleetController.World

/-!
# One fleet's replicas across the nodes

The moves of a reconcile and its fresh placements are decided from one list of
candidates: the moves all go to the node ranked first, and the planner starts
again from the counts before them.  So the new pins spread exactly when no two
decisions compete for that node.
-/

namespace VllmColdstartOperator

open Foundation Std

/-! ## Where a reconcile pins -/

namespace ReconcileInput

variable (input : ReconcileInput)

def existingPins (node : String) : Nat := (input.current.toList.map Prod.snd).count node

/-- The nodes of the newly pinned slots in the order they are decided: moves by
slot, then the slots with no child by slot. -/
def newPins : List String :=
  ((input.writtenPins.filter fun slot =>
      (input.current[slot.1]?).any fun node => node ≠ slot.2) ++
    input.writtenPins.filter fun slot => input.current[slot.1]? = none).map Prod.snd

def healthyNames : Finset String :=
  (input.healthyCandidates.map NodeCandidate.name).toFinset

/-! ## The moves and the planned slots -/

def moveCount : Nat :=
  ((input.displacedSlots.take input.budget).filter fun slot => slot.1 < input.desired).length

/-- What several decisions need of the other healthy nodes, `best` being the one
the strategy ranks first. -/
def SpreadsTogether : Prop :=
  input.IsFull → ∀ best,
    selectNodeWithStrategy input.healthyCandidates input.strategy input.horizonSecs =
      some best →
    ∀ other ∈ input.healthyCandidates, other.name ≠ best.name →
      (2 ≤ input.moveCount →
        input.existingPins best.name + input.moveCount + input.missing.length ≤
          input.existingPins other.name + 1) ∧
      (input.moveCount = 1 → ∀ level, input.existingPins other.name ≤ level →
        yieldsTie input.strategy input.horizonSecs input.healthyCandidates input.existingPins
          best.name level other.name = false →
        input.missing.length ≤ room input.healthyNames input.existingPins best.name
          (yieldsTie input.strategy input.horizonSecs input.healthyCandidates
            input.existingPins best.name) level)

variable {input}

theorem newPins_of_no_healthy (hfull : input.IsFull) (hnone : input.healthyCandidates = []) :
    input.newPins = [] := by
  have hkept : ∀ slot ∈ input.slotNodes, input.current[slot.1]? = some slot.2 := by
    intro slot hslot
    obtain ⟨-, hpin⟩ := (mem_slotNodes slot.1 slot.2).mp hslot
    rwa [pin_of_no_healthy hnone] at hpin
  rw [newPins, writtenPins_of_isFull hfull, List.filter_eq_nil_iff.mpr,
    List.filter_eq_nil_iff.mpr]
  · rfl
  · intro slot hslot
    simp [hkept slot hslot]
  · intro slot hslot
    simp [hkept slot hslot]

theorem mem_repinned {slot : Nat × String} :
    slot ∈ (input.slotNodes.filter fun slot =>
        (input.current[slot.1]?).any fun node => node ≠ slot.2) ↔
      slot.1 < input.desired ∧ slot.1 ∈ input.movedSlots ∧ input.target = some slot.2 := by
  obtain ⟨index, node⟩ := slot
  rw [List.mem_filter, mem_slotNodes]
  constructor
  · rintro ⟨⟨hrange, hpin⟩, hchanged⟩
    obtain ⟨before, hbefore, hne⟩ : ∃ before, input.current[index]? = some before ∧
        before ≠ node := by
      simpa [Option.any_eq_true] using hchanged
    have hmoved := (moved_of_repinned hbefore (by rw [hpin]; simpa using hne.symm)).1
    rw [pin_of_moved hmoved] at hpin
    exact ⟨hrange, hmoved, hpin⟩
  · rintro ⟨hrange, hmoved, htarget⟩
    obtain ⟨⟨before, hbefore, hdisplaced⟩, -⟩ := of_mem_movedSlots hmoved
    have hne : before ≠ node := by
      rintro rfl
      exact target_not_displaced htarget hdisplaced
    refine ⟨⟨hrange, by rw [pin_of_moved hmoved, htarget]⟩, ?_⟩
    simpa [hbefore] using hne

theorem movedSlots_inRange_length {node : String} (htarget : input.target = some node) :
    (input.movedSlots.filter fun index => index < input.desired).length = input.moveCount := by
  rw [movedSlots, htarget, moveCount, Option.isSome_some, if_pos rfl, List.filter_map,
    List.length_map]
  rfl

theorem repinned_eq {node : String} (htarget : input.target = some node) :
    (input.slotNodes.filter fun slot =>
        (input.current[slot.1]?).any fun node => node ≠ slot.2).map Prod.snd =
      List.replicate input.moveCount node := by
  rw [List.eq_replicate_iff]
  constructor
  · rw [List.length_map, ← movedSlots_inRange_length htarget, ← List.length_map Prod.fst]
    apply List.Perm.length_eq
    have hsorted := @slotNodes_sorted input
    refine (List.perm_ext_iff_of_nodup ?_ (movedSlots_nodup.filter _)).mpr fun index => ?_
    · rw [List.nodup_iff_pairwise_ne, List.pairwise_map]
      exact (hsorted.filter _).imp fun hlt => Nat.ne_of_lt hlt
    · rw [List.mem_map, List.mem_filter]
      constructor
      · rintro ⟨slot, hslot, rfl⟩
        obtain ⟨hrange, hmoved, -⟩ := mem_repinned.mp hslot
        exact ⟨hmoved, by simpa using hrange⟩
      · rintro ⟨hmoved, hrange⟩
        exact ⟨(index, node), mem_repinned.mpr ⟨by simpa using hrange, hmoved, htarget⟩, rfl⟩
  · intro name hname
    obtain ⟨slot, hslot, rfl⟩ := List.mem_map.mp hname
    have hsame := htarget.symm.trans (mem_repinned.mp hslot).2.2
    exact (Option.some.inj hsame).symm

theorem planned_eq (hfull : input.IsFull) (hhealthy : input.healthyCandidates ≠ []) :
    (input.slotNodes.filter fun slot => input.current[slot.1]? = none).map Prod.snd =
      input.fresh := by
  rw [← missing_filterMap_pin hfull.2.1 hhealthy, slotNodes_eq, List.filter_filterMap,
    List.map_filterMap, missing, List.filterMap_filter]
  refine List.filterMap_congr fun index _ => ?_
  by_cases hmem : index ∈ input.current
  · cases input.pin index <;> simp [hmem, Option.filter]
  · cases input.pin index <;> simp [hmem, Option.filter]

theorem newPins_eq (hfull : input.IsFull) {node : String} (htarget : input.target = some node)
    (hhealthy : input.healthyCandidates ≠ []) :
    input.newPins = List.replicate input.moveCount node ++ input.fresh := by
  rw [newPins, writtenPins_of_isFull hfull, List.map_append, repinned_eq htarget,
    planned_eq hfull hhealthy]

/-! ## The counts the planner ranks on -/

theorem ownPlacementsPerNode_lookup (current : BTreeMap Nat String) (node : String) :
    ((ownPlacementsPerNode current)[node]?).getD 0 =
      Int32.ofNat ((current.toList.map Prod.snd).count node) := by
  have hfold : ∀ (nodes : List String) (counts : BTreeMap String Int32),
      ((nodes.foldl (fun counts node =>
        counts.insert node ((counts[node]?).getD 0 + 1)) counts)[node]?).getD 0 =
        (counts[node]?).getD 0 + Int32.ofNat (nodes.count node) := by
    intro nodes
    induction nodes with
    | nil => simp
    | cons first nodes ih =>
        intro counts
        rw [List.foldl_cons, ih, BTreeMap.lookup_insert, List.count_cons]
        by_cases hfirst : first = node
        · subst hfirst
          rw [if_pos rfl, if_pos (by simp), Option.getD_some, Int32.ofNat_add,
            Int32.add_assoc, Int32.add_comm 1]
          rfl
        · rw [if_neg hfirst, if_neg (by simpa using hfirst), Nat.add_zero]
  rw [ownPlacementsPerNode, hfold]
  simp

theorem slots_length_lt
    (hslots : ∀ (index : Nat) (node : String),
      input.current[index]? = some node → index < 2 ^ 31 - 1) :
    input.current.toList.length + input.missing.length < 2 ^ 31 := by
  have hnodup : (input.current.toList.map Prod.fst ++ input.missing).Nodup := by
    refine (BTreeMap.keys_nodup _).append (List.nodup_range.filter _) ?_
    intro index hkey hmissing
    obtain ⟨held, hheld⟩ := (BTreeMap.mem_keys_iff _ _).mp hkey
    rw [((mem_missing index).mp hmissing).2] at hheld
    cases hheld
  have hrange : (input.current.toList.map Prod.fst ++ input.missing) ⊆
      List.range (2 ^ 31 - 1) := by
    intro index hmem
    rw [List.mem_range]
    rcases List.mem_append.mp hmem with hkey | hmissing
    · obtain ⟨held, hheld⟩ := (BTreeMap.mem_keys_iff _ _).mp hkey
      exact hslots index held hheld
    · have hlt := ((mem_missing index).mp hmissing).1
      have hbound := @desired_lt input
      omega
  have hlength := (hnodup.subperm hrange).length_le
  rw [List.length_range, List.length_append, List.length_map] at hlength
  omega

theorem existingPins_small
    (hslots : ∀ (index : Nat) (node : String),
      input.current[index]? = some node → index < 2 ^ 31 - 1) (node : String) :
    input.existingPins node + input.missing.length < 2 ^ 31 := by
  have hle : input.existingPins node ≤ (input.current.toList.map Prod.snd).length :=
    List.count_le_length
  have hlt := slots_length_lt hslots
  rw [List.length_map] at hle
  omega

theorem healthyCandidates_nodup
    (hnodes : ∀ nodes, input.snapshot.nodes = some nodes → (nodes.map Node.name).Nodup) :
    (input.healthyCandidates.map NodeCandidate.name).Nodup := by
  refine ((List.filter_sublist.trans List.filter_sublist).map _).nodup ?_
  rw [candidates, List.map_map]
  exact input.snapshot.poolCandidates_nodup hnodes _

theorem healthy_countsOwn
    (hnodes : ∀ nodes, input.snapshot.nodes = some nodes → (nodes.map Node.name).Nodup)
    (hslots : ∀ (index : Nat) (node : String),
      input.current[index]? = some node → index < 2 ^ 31 - 1) :
    CountsOwn input.healthyCandidates input.existingPins input.missing.length where
  nodup := healthyCandidates_nodup hnodes
  counted := by
    intro candidate hmem
    obtain ⟨pooled, -, rfl⟩ := List.mem_map.mp (mem_healthyCandidates hmem).1
    exact ownPlacementsPerNode_lookup input.current pooled.name
  small := fun candidate _ => existingPins_small hslots candidate.name

theorem spreadsTogether_iff (hfull : input.IsFull) {best : NodeCandidate}
    (hbest : selectNodeWithStrategy input.healthyCandidates input.strategy input.horizonSecs =
      some best) :
    input.SpreadsTogether ↔
      (2 ≤ input.moveCount → ∀ other ∈ input.healthyNames, other ≠ best.name →
        input.existingPins best.name + input.moveCount + input.missing.length ≤
          input.existingPins other + 1) ∧
      (input.moveCount = 1 → ∀ other ∈ input.healthyNames, other ≠ best.name →
        ∀ level, input.existingPins other ≤ level →
          yieldsTie input.strategy input.horizonSecs input.healthyCandidates
            input.existingPins best.name level other = false →
          input.missing.length ≤ room input.healthyNames input.existingPins best.name
            (yieldsTie input.strategy input.horizonSecs input.healthyCandidates
              input.existingPins best.name) level) := by
  have hnames : ∀ name, name ∈ input.healthyNames ↔
      ∃ candidate ∈ input.healthyCandidates, candidate.name = name := by
    intro name
    rw [healthyNames, List.mem_toFinset, List.mem_map]
  constructor
  · intro htogether
    constructor
    · rintro hmany name hname hne
      obtain ⟨other, hother, rfl⟩ := (hnames name).mp hname
      exact (htogether hfull best hbest other hother hne).1 hmany
    · rintro hone name hname hne
      obtain ⟨other, hother, rfl⟩ := (hnames name).mp hname
      exact (htogether hfull best hbest other hother hne).2 hone
  · rintro ⟨hmany, hone⟩ _ chosen hchosen other hother hne
    rw [hbest, Option.some.injEq] at hchosen
    subst hchosen
    have hname : other.name ∈ input.healthyNames := (hnames other.name).mpr ⟨other, hother, rfl⟩
    exact ⟨fun h => hmany h other.name hname hne, fun h => hone h other.name hname hne⟩

theorem select_eq_none (hfull : input.IsFull)
    (hnone : selectNodeWithStrategy input.healthyCandidates input.strategy input.horizonSecs =
      none) : input.healthyCandidates = [] := by
  by_contra hne
  have htarget := target_isSome hfull.2.1 hne
  simp [target, hnone] at htarget

end ReconcileInput

open ReconcileInput

/-- The new pins of a reconcile spread over the healthy candidates exactly when
its moves and its fresh placements together do not compete for one node. -/
theorem new_pins_spread_iff (input : ReconcileInput)
    (hnodes : ∀ nodes, input.snapshot.nodes = some nodes → (nodes.map Node.name).Nodup)
    (hslots : ∀ (index : Nat) (node : String),
      input.current[index]? = some node → index < 2 ^ 31 - 1) :
    Spreads input.healthyNames input.existingPins input.newPins ↔ input.SpreadsTogether := by
  by_cases hfull : input.IsFull
  swap
  · have hnone : input.newPins = [] := by simp [newPins, writtenPins_of_not_isFull hfull]
    rw [hnone]
    exact ⟨fun _ h => absurd h hfull, fun _ => spreads_nil⟩
  cases hbest : selectNodeWithStrategy input.healthyCandidates input.strategy
      input.horizonSecs with
  | none =>
      rw [newPins_of_no_healthy hfull (select_eq_none hfull hbest)]
      refine ⟨fun _ _ best hsome => ?_, fun _ => spreads_nil⟩
      rw [hbest] at hsome
      cases hsome
  | some best =>
      have hmem := selectNodeWithStrategy_mem hbest
      have hcounts := healthy_countsOwn hnodes hslots
      have hplace : best.name ∈ input.healthyNames :=
        List.mem_toFinset.mpr (List.mem_map_of_mem hmem)
      have hhealthy : input.healthyCandidates ≠ [] := List.ne_nil_of_mem hmem
      have htarget : input.target = some best.name := by rw [target, hbest, Option.map_some]
      have hspreads : Spreads input.healthyNames input.existingPins input.fresh := by
        rw [fresh_eq]
        exact hcounts.planPicks_spreads le_rfl
      have hties : SettlesTies input.healthyNames input.existingPins input.fresh best.name
          (yieldsTie input.strategy input.horizonSecs input.healthyCandidates
            input.existingPins best.name) := by
        rw [fresh_eq]
        exact planPicks_settlesTies hcounts.nodup best.name
      have hleast : ∀ other ∈ input.healthyNames,
          input.existingPins best.name ≤ input.existingPins other := by
        intro other hother
        obtain ⟨candidate, hcandidate, rfl⟩ := List.mem_map.mp (List.mem_toFinset.mp hother)
        exact hcounts.first_least hbest hcandidate
      have hlength := fresh_length hfull.2.1 hhealthy
      rw [newPins_eq hfull htarget hhealthy, spreadsTogether_iff hfull hbest]
      rcases Nat.lt_trichotomy input.moveCount 1 with hzero | hone | hmany
      · have hnomove : input.moveCount = 0 := by omega
        simpa [hnomove] using hspreads
      · have hextra := spreads_one_extra_iff hplace hleast hspreads hties
        rw [hone, hextra, hlength]
        simp
      · have hextra := spreads_extra_iff hmany hplace hspreads
        rw [hextra, hlength]
        have hne : input.moveCount ≠ 1 := by omega
        have htwo : 2 ≤ input.moveCount := hmany
        simp [hne, htwo]

namespace Sample

/-- Both slots of a fleet lose one node; two empty nodes survive it. -/
def lostTogether : ReconcileInput :=
  (pinned [(0, "gone"), (1, "gone")]).input metadata
    (round (spec 2 1 2) (snapshot ["gone", "a", "b"] ["gone"]) [])

theorem lostTogether_newPins : lostTogether.newPins = ["b", "b"] := by decide

theorem lostTogether_nodes (nodes : List Node) (hread : lostTogether.snapshot.nodes = some nodes) :
    (nodes.map Node.name).Nodup := by
  cases hread
  exact List.nodup_nil

theorem lostTogether_slots (index : Nat) (node : String)
    (hcurrent : lostTogether.current[index]? = some node) : index < 2 ^ 31 - 1 := by
  have hmem := BTreeMap.mem_of_lookup_collect hcurrent
  have hpins : lostTogether.existing.filterMap slotPin = [(0, "gone"), (1, "gone")] := by decide
  rw [hpins] at hmem
  rcases List.mem_pair.mp hmem with heq | heq
  · cases heq
    decide
  · cases heq
    decide

theorem new_pins_spread_iff_sample :
    Spreads lostTogether.healthyNames lostTogether.existingPins lostTogether.newPins ↔
      lostTogether.SpreadsTogether :=
  new_pins_spread_iff lostTogether lostTogether_nodes lostTogether_slots

/-- Two slots displaced together land on one node while another is empty. -/
theorem new_pins_spread_counterexample :
    ¬ ∀ input : ReconcileInput,
      (∀ nodes, input.snapshot.nodes = some nodes → (nodes.map Node.name).Nodup) →
      (∀ (index : Nat) (node : String),
        input.current[index]? = some node → index < 2 ^ 31 - 1) →
      Spreads input.healthyNames input.existingPins input.newPins := by
  intro hall
  have hspreads := hall lostTogether lostTogether_nodes lostTogether_slots
  rw [lostTogether_newPins] at hspreads
  have hleast := (hspreads ["b"] "b" [] rfl).2 "a" (by decide)
  have hfewer : load lostTogether.existingPins ["b"] "a" <
      load lostTogether.existingPins ["b"] "b" := by decide
  omega

end Sample

end VllmColdstartOperator
