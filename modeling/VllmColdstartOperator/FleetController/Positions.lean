import VllmColdstartOperator.FleetController.Placements

/-!
# Slots by position

Moves and planned slots go by slot order: a displaced slot moves when fewer
displaced slots than the budget come before it, and the picks fill the missing
slots one after the other.  So what the first slots of a reconcile take is given
by counts.
-/

namespace VllmColdstartOperator

open Foundation Std

theorem exists_count_eq {test : Nat → Prop} [DecidablePred test] {reached bound : Nat}
    (hlt : reached < Nat.count test bound) :
    ∃ index < bound, test index ∧ Nat.count test index = reached := by
  induction bound with
  | zero => simp at hlt
  | succ bound ih =>
      by_cases hbefore : reached < Nat.count test bound
      · obtain ⟨index, hindex, htest⟩ := ih hbefore
        exact ⟨index, Nat.lt_succ_of_lt hindex, htest⟩
      · rw [Nat.count_succ] at hlt
        split at hlt
        · next htest => exact ⟨bound, Nat.lt_succ_self bound, htest, by omega⟩
        · omega

namespace ReconcileInput

section Definitions

variable (input : ReconcileInput)

def onDisplaced (index : Nat) : Bool :=
  (input.current[index]?).any fun node => decide (node ∈ input.displaced)

def displacedBelow (bound : Nat) : Nat :=
  Nat.count (fun index => input.onDisplaced index = true) bound

/-- The moves among the slots below a bound, when there is a node to move to. -/
def movesBelow (bound : Nat) : Nat := min (input.displacedBelow bound) input.budget

def missingBelow (bound : Nat) : Nat :=
  Nat.count (fun index => input.current[index]? = none) bound

end Definitions

variable {input : ReconcileInput}

/-! ## Slots by position -/

theorem onDisplaced_iff (index : Nat) :
    input.onDisplaced index = true ↔
      ∃ node, input.current[index]? = some node ∧ node ∈ input.displaced := by
  simp [onDisplaced, Option.any_eq_true]

theorem displacedBelow_succ (bound : Nat) :
    input.displacedBelow (bound + 1) =
      input.displacedBelow bound + if input.onDisplaced bound = true then 1 else 0 :=
  Nat.count_succ _ bound

theorem displacedBelow_mono {bound more : Nat} (hle : bound ≤ more) :
    input.displacedBelow bound ≤ input.displacedBelow more :=
  Nat.count_monotone _ hle

theorem mem_movedSlots_iff (index : Nat) :
    index ∈ input.movedSlots ↔ input.target.isSome = true ∧ input.onDisplaced index = true ∧
      input.displacedBelow index < input.budget := by
  have hsorted : input.displacedSlots.Pairwise fun left right => left.1 < right.1 :=
    (BTreeMap.toList_sorted input.current).filter _
  have hbelow : (input.displacedSlots.countP fun slot => slot.1 < index) =
      input.displacedBelow index :=
    BTreeMap.countP_below input.current (fun slot => decide (slot.2 ∈ input.displaced)) index
  rw [onDisplaced_iff, movedSlots]
  by_cases htarget : input.target.isSome = true
  · rw [if_pos htarget, List.mem_map]
    constructor
    · rintro ⟨⟨_, node⟩, htake, rfl⟩
      obtain ⟨hmem, hfew⟩ := (BTreeMap.mem_take_iff hsorted _ _).mp htake
      exact ⟨htarget, ⟨node, (mem_displacedSlots _ _).mp hmem⟩, hbelow ▸ hfew⟩
    · rintro ⟨-, ⟨node, hnode⟩, hfew⟩
      exact ⟨(index, node), (BTreeMap.mem_take_iff hsorted _ _).mpr
        ⟨(mem_displacedSlots _ _).mpr hnode, hbelow.symm ▸ hfew⟩, rfl⟩
  · rw [if_neg htarget]
    simp [htarget]

theorem mem_movedSlots_of_target {best : String} (htarget : input.target = some best)
    (index : Nat) : index ∈ input.movedSlots ↔
      input.onDisplaced index = true ∧ input.displacedBelow index < input.budget := by
  rw [mem_movedSlots_iff, htarget]
  simp

theorem missing_eq_filter : input.missing =
    (List.range input.desired).filter fun index => input.current[index]? = none := by
  rw [missing]
  refine List.filter_congr fun index _ => decide_eq_decide.mpr ?_
  rw [← ExtTreeMap.isSome_getElem?_iff_mem, Option.not_isSome_iff_eq_none]

theorem count_movedSlots {best : String} (htarget : input.target = some best) (bound : Nat) :
    Nat.count (fun index => index ∈ input.movedSlots) bound = input.movesBelow bound := by
  rw [movesBelow]
  induction bound with
  | zero => simp [displacedBelow]
  | succ bound ih =>
      rw [Nat.count_succ, ih, displacedBelow_succ]
      simp only [mem_movedSlots_of_target htarget]
      by_cases hdisplaced : input.onDisplaced bound = true
      · simp only [hdisplaced, true_and, if_true]
        split <;> omega
      · simp [hdisplaced]

theorem fresh_take (hsupported : input.strategy.isSupported = true)
    (hhealthy : input.healthyCandidates ≠ []) {bound : Nat} (hbound : bound ≤ input.desired) :
    input.fresh.take (input.missingBelow bound) =
        ((List.range bound).filter fun index => input.current[index]? = none).filterMap
          input.pin ∧
      input.fresh.drop (input.missingBelow bound) =
        (input.missing.filter fun index => bound ≤ index).filterMap input.pin := by
  have hsplit : input.missing =
      ((List.range bound).filter fun index => input.current[index]? = none) ++
        input.missing.filter fun index => bound ≤ index := by
    have hrange : List.range input.desired = List.range' 0 bound ++
        List.range' bound (input.desired - bound) := by
      have happend := @List.range'_append_1 0 bound (input.desired - bound)
      rw [Nat.zero_add, Nat.add_sub_cancel' hbound] at happend
      rw [happend, List.range_eq_range']
    have hlow : (List.range' 0 bound).filter (fun index => decide (bound ≤ index)) = [] := by
      rw [List.filter_eq_nil_iff]
      intro index hindex
      have hlt := (List.mem_range'_1.mp hindex).2
      simp only [decide_eq_true_eq]
      omega
    have hhigh : (List.range' bound (input.desired - bound)).filter
        (fun index => decide (bound ≤ index)) = List.range' bound (input.desired - bound) := by
      rw [List.filter_eq_self]
      intro index hindex
      simpa using (List.mem_range'_1.mp hindex).1
    rw [missing_eq_filter, List.filter_comm, hrange, List.filter_append, List.filter_append,
      hlow, hhigh, List.nil_append, List.range_eq_range']
  have hlength : (((List.range bound).filter fun index =>
      input.current[index]? = none).filterMap input.pin).length = input.missingBelow bound := by
    have hall : ∀ index ∈ (List.range bound).filter fun index => input.current[index]? = none,
        (input.pin index).isSome = true := by
      intro index hindex
      have hlt := List.mem_range.mp (List.mem_filter.mp hindex).1
      exact Option.isSome_iff_exists.mpr
        (pin_isSome hsupported hhealthy (Nat.lt_of_lt_of_le hlt hbound))
    rw [List.length_filterMap_eq_countP, List.countP_eq_length.mpr hall, missingBelow, Nat.count,
      List.countP_eq_length_filter]
  have hfresh := missing_filterMap_pin hsupported hhealthy
  rw [hsplit, List.filterMap_append] at hfresh
  rw [← hfresh]
  exact ⟨List.take_left' hlength, List.drop_left' hlength⟩

theorem healthy_of_target {best : String} (htarget : input.target = some best) :
    input.healthyCandidates ≠ [] := by
  obtain ⟨candidate, hmem, -⟩ := target_mem htarget
  exact List.ne_nil_of_mem hmem

theorem slotNodes_indices (hsupported : input.strategy.isSupported = true)
    (hhealthy : input.healthyCandidates ≠ []) :
    input.slotNodes.map Prod.fst = List.range input.desired := by
  rw [slotNodes_eq, List.map_filterMap]
  conv_rhs => rw [← List.filterMap_some (l := List.range input.desired)]
  refine List.filterMap_congr fun slot hslot => ?_
  obtain ⟨node, hnode⟩ := pin_isSome hsupported hhealthy (List.mem_range.mp hslot)
  rw [hnode]
  rfl

theorem slotNodes_take_lookup (hsupported : input.strategy.isSupported = true)
    (hhealthy : input.healthyCandidates ≠ []) {made index : Nat} (hrange : index < input.desired) :
    (input.slotNodes.take made).lookup index = if index < made then input.pin index else none := by
  have hbelow : (input.slotNodes.countP fun slot => slot.1 < index) = index := by
    have hmap := @List.countP_map _ _ (fun slot => decide (slot < index)) Prod.fst input.slotNodes
    rw [slotNodes_indices hsupported hhealthy] at hmap
    exact hmap.symm.trans ((count_lt index input.desired).trans (by omega))
  apply Option.ext
  intro node
  rw [BTreeMap.lookup_eq_some_iff_mem (slotNodes_sorted.sublist (List.take_sublist _ _)),
    BTreeMap.mem_take_iff slotNodes_sorted, hbelow, mem_slotNodes]
  by_cases hmade : index < made
  · simp [hmade, hrange]
  · simp [hmade]

end ReconcileInput

end VllmColdstartOperator
