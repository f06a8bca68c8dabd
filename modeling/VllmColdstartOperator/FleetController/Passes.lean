import VllmColdstartOperator.FleetController.Reconcile

/-!
# What each pass does

One specification lemma for each pass of the reconcile.  Every move goes to one
target, the node the strategy selects among the healthy candidates, and the
moved slots are the first displaced ones the budget admits; a slot in range is
moved, kept or planned; and the written placements are one for each slot.
-/

namespace VllmColdstartOperator

open Foundation Std

/-! ## Child names -/

theorem dash_not_mem_toString (index : Nat) : '-' ∉ (toString index).toList := by
  intro hmem
  exact absurd (isDigit_of_mem_repr hmem) (by decide)

theorem slotIndexOf_childName (fleetName : String) (index : Nat) :
    slotIndexOf (childName fleetName index) =
      if index ≤ usizeMax then some index else none := by
  have hsplit : rsplitOnce (childName fleetName index) '-' =
      some (fleetName, toString index) :=
    rsplitOnce_append (dash_not_mem_toString index) fleetName
  rw [← parseUsize_toString, slotIndexOf, hsplit]
  rfl

theorem slotPin_of_named {fleetName : String} {index : Nat} {child : VllmService}
    {node : String} (hle : index ≤ usizeMax) (hname : child.name = childName fleetName index)
    (hnode : child.spec.nodeName = some node) : slotPin child = some (index, node) := by
  rw [slotPin, hname, slotIndexOf_childName, if_pos hle, hnode]
  rfl

theorem childName_injective (fleetName : String) :
    Function.Injective (childName fleetName) := by
  intro left right heq
  have hleft := rsplitOnce_append (dash_not_mem_toString left) fleetName
  have hright := rsplitOnce_append (dash_not_mem_toString right) fleetName
  have hsame : rsplitOnce (childName fleetName left) '-' =
      rsplitOnce (childName fleetName right) '-' := by rw [heq]
  have hdigits : toString left = toString right := by
    have hpair := hleft.symm.trans (hsame.trans hright)
    simpa using hpair
  have hvalue := decimalDigits_toString left
  rw [hdigits, decimalDigits_toString, Option.some.injEq] at hvalue
  exact hvalue.symm

@[simp] theorem childName_inj (fleetName : String) (left right : Nat) :
    childName fleetName left = childName fleetName right ↔ left = right :=
  (childName_injective fleetName).eq_iff

/-! ## The preemption pass -/

namespace PreemptionPass

variable {displaced : BTreeSet String} {replacement : String → Option String}

theorem mem_preemptedSlots_foldl (slots : List (Nat × String)) (pass : PreemptionPass)
    (index : Nat) :
    index ∈ (slots.foldl (visit displaced replacement) pass).preemptedSlots ↔
      index ∈ pass.preemptedSlots ∨ ∃ slot ∈ slots, slot.1 = index ∧ slot.2 ∈ displaced := by
  induction slots generalizing pass with
  | nil => simp
  | cons slot slots ih =>
      rw [List.foldl_cons, ih]
      by_cases hdisplaced : slot.2 ∈ displaced
      · have hvisit : (visit displaced replacement pass slot).preemptedSlots =
            pass.preemptedSlots.insert slot.1 := by
          rw [visit, if_pos hdisplaced]
          dsimp only
          split
          · rfl
          · split <;> rfl
        rw [hvisit, ExtTreeSet.mem_insert, LawfulEqCmp.compare_eq_iff_eq]
        simp only [List.mem_cons, exists_eq_or_imp, hdisplaced, and_true]
        tauto
      · rw [visit, if_neg hdisplaced]
        simp [hdisplaced]

/-- With one replacement for every displaced node, the moved slots are the
first displaced ones, as many as the budget. -/
theorem moved_foldl {target : Option String}
    (hreplacement : ∀ node ∈ displaced, replacement node = target)
    (slots : List (Nat × String)) (pass : PreemptionPass) (index : Nat) :
    (slots.foldl (visit displaced replacement) pass).moved[index]? =
      if target.isSome = true ∧
          index ∈ ((slots.filter fun slot => slot.2 ∈ displaced).take pass.budget).map Prod.fst
      then target else pass.moved[index]? := by
  induction slots generalizing pass with
  | nil => simp
  | cons slot slots ih =>
      rw [List.foldl_cons, ih]
      by_cases hdisplaced : slot.2 ∈ displaced
      · rw [visit, if_pos hdisplaced, List.filter_cons_of_pos (by simpa using hdisplaced)]
        dsimp only
        by_cases hbudget : pass.budget = 0
        · simp [hbudget]
        · rw [if_neg hbudget, hreplacement _ hdisplaced]
          obtain ⟨budget, hsucc⟩ := Nat.exists_eq_succ_of_ne_zero hbudget
          cases htarget : target with
          | none => simp
          | some node =>
              simp only [hsucc, Nat.succ_sub_one, List.take_succ_cons, List.map_cons,
                List.mem_cons, Option.isSome_some, true_and, BTreeMap.lookup_insert]
              by_cases hindex : slot.1 = index
              · simp [hindex]
              · simp [hindex, Ne.symm hindex]
      · rw [visit, if_neg hdisplaced, List.filter_cons_of_neg (by simpa using hdisplaced)]

end PreemptionPass

/-! ## Slots in range -/

theorem assignSlots_eq (moved current : BTreeMap Nat String) {unplaced : Nat → Bool}
    (hunplaced : ∀ index, unplaced index = true ↔
      moved[index]? = none ∧ current[index]? = none)
    {indices : List Nat} (hnodup : indices.Nodup) (fresh : List String) :
    assignSlots moved current indices fresh =
      indices.filterMap fun index =>
        (((moved[index]?).or current[index]?).or
          (((indices.filter unplaced).zip fresh).lookup index)).map (Prod.mk index) := by
  induction indices generalizing fresh with
  | nil => rfl
  | cons index indices ih =>
      obtain ⟨hnotmem, hnodup⟩ := List.nodup_cons.mp hnodup
      rw [assignSlots.eq_def]
      dsimp only
      cases hmoved : moved[index]? with
      | some target =>
          have hplaced : unplaced index = false := by
            simpa [hmoved] using (hunplaced index).not
          simp only [ih hnodup, List.filter_cons, hplaced, List.filterMap_cons, hmoved,
            Option.some_or, Option.map_some, Bool.false_eq_true, if_false]
      | none =>
          cases hcurrent : current[index]? with
          | some node =>
              have hplaced : unplaced index = false := by
                simpa [hmoved, hcurrent] using (hunplaced index).not
              simp only [ih hnodup, List.filter_cons, hplaced, List.filterMap_cons, hmoved,
                hcurrent, Option.some_or, Option.none_or, Option.map_some,
                Bool.false_eq_true, if_false]
          | none =>
              have hopen : unplaced index = true := (hunplaced index).mpr ⟨hmoved, hcurrent⟩
              cases fresh with
              | nil =>
                  simp only [ih hnodup, List.zip_nil_right, List.lookup_nil,
                    List.filterMap_cons, hmoved, hcurrent, Option.or_none, Option.map_none]
              | cons node fresh =>
                  have hrest : ∀ other ∈ indices, (other == index) = false := by
                    intro other hother
                    simpa using fun heq : other = index => hnotmem (heq ▸ hother)
                  simp only [ih hnodup, hmoved, hcurrent, List.filter_cons, hopen,
                    if_true, List.zip_cons_cons, List.filterMap_cons,
                    Option.or_none, Option.none_or, List.lookup_cons, beq_self_eq_true,
                    Option.map_some, List.cons.injEq, true_and]
                  exact List.filterMap_congr fun other hother => by
                    simp only [hrest other hother]

theorem mem_of_lookup_zip {indices : List Nat} {names : List String} {index : Nat}
    {name : String} (hlookup : (indices.zip names).lookup index = some name) :
    index ∈ indices ∧ name ∈ names := by
  have hmem : (index, name) ∈ indices.zip names := by
    obtain ⟨before, after, heq, -⟩ := List.lookup_eq_some_iff.mp hlookup
    rw [heq]
    simp
  exact ⟨(List.of_mem_zip hmem).1, (List.of_mem_zip hmem).2⟩

theorem lookup_zip_isSome {indices : List Nat} {names : List String} {index : Nat}
    (hmem : index ∈ indices) (hlength : indices.length ≤ names.length) :
    ∃ name, (indices.zip names).lookup index = some name := by
  induction indices generalizing names with
  | nil => simp at hmem
  | cons head indices ih =>
      cases names with
      | nil => simp at hlength
      | cons name names =>
          rw [List.zip_cons_cons, List.lookup_cons]
          by_cases heq : index = head
          · simp [heq]
          · have htail : index ∈ indices := by simpa [heq] using hmem
            have hhead : (index == head) = false := by simpa using heq
            rw [hhead]
            exact ih htail (by simpa using hlength)

theorem filterMap_lookup_zip {indices : List Nat} (hnodup : indices.Nodup) {names : List String}
    (hlength : indices.length = names.length) :
    indices.filterMap (fun index => (indices.zip names).lookup index) = names := by
  induction indices generalizing names with
  | nil => exact (List.eq_nil_of_length_eq_zero hlength.symm).symm
  | cons index indices ih =>
      obtain ⟨habsent, hnodup⟩ := List.nodup_cons.mp hnodup
      cases names with
      | nil => simp at hlength
      | cons name names =>
          have hothers : indices.filterMap (fun other =>
              ((index, name) :: indices.zip names).lookup other) =
              indices.filterMap fun other => (indices.zip names).lookup other := by
            refine List.filterMap_congr fun other hother => ?_
            have hne : (other == index) = false := by
              simpa using fun heq : other = index => habsent (heq ▸ hother)
            rw [List.lookup_cons, hne]
          have hhead : ((index, name) :: indices.zip names).lookup index = some name :=
            List.lookup_cons_self
          rw [List.zip_cons_cons, List.filterMap_cons, hhead, hothers,
            ih hnodup (by simpa using hlength)]

namespace ReconcileInput

variable (input : ReconcileInput)

/-- The slots the preemption pass sees on a displaced node, in slot order. -/
def displacedSlots : List (Nat × String) :=
  input.current.toList.filter fun slot => slot.2 ∈ input.displaced

/-- The one node every move of this reconcile goes to. -/
def target : Option String :=
  (selectNodeWithStrategy input.healthyCandidates input.strategy input.horizonSecs).map
    NodeCandidate.name

def movedSlots : List Nat :=
  if input.target.isSome then (input.displacedSlots.take input.budget).map Prod.fst else []

def pin (index : Nat) : Option String :=
  ((input.moved[index]?).or input.current[index]?).or
    ((input.missing.zip input.fresh).lookup index)

variable {input}

theorem mem_healthyCandidates {candidate : NodeCandidate}
    (hmem : candidate ∈ input.healthyCandidates) :
    candidate ∈ input.candidates ∧ candidate.name ∉ input.displaced := by
  simp only [healthyCandidates, List.mem_filter, decide_eq_true_eq] at hmem
  exact hmem.1

theorem target_mem {node : String} (htarget : input.target = some node) :
    ∃ candidate ∈ input.healthyCandidates, candidate.name = node := by
  obtain ⟨best, hbest, rfl⟩ := Option.map_eq_some_iff.mp htarget
  exact ⟨best, selectNodeWithStrategy_mem hbest, rfl⟩

theorem target_not_displaced {node : String} (htarget : input.target = some node) :
    node ∉ input.displaced := by
  obtain ⟨candidate, hmem, rfl⟩ := target_mem htarget
  exact (mem_healthyCandidates hmem).2

theorem target_isSome (hsupported : input.strategy.isSupported = true)
    (hhealthy : input.healthyCandidates ≠ []) : ∃ node, input.target = some node := by
  obtain ⟨best, hbest⟩ : ∃ best, selectNodeWithStrategy input.healthyCandidates
      input.strategy input.horizonSecs = some best :=
    selectNodeWithStrategy_isSome hsupported hhealthy
  exact ⟨best.name, by rw [target, hbest]; rfl⟩

theorem target_of_no_healthy (hnone : input.healthyCandidates = []) :
    input.target = none := by
  simp [target, hnone]

theorem replacement_of_displaced {node : String} (hnode : node ∈ input.displaced) :
    input.replacement node = input.target :=
  selectReplacementNode_of_absent fun _ hmem heq =>
    (mem_healthyCandidates hmem).2 (heq ▸ hnode)

theorem mem_preemptedSlots (index : Nat) :
    index ∈ input.preemptedSlots ↔
      ∃ node, input.current[index]? = some node ∧ node ∈ input.displaced := by
  rw [preemptedSlots, preemptionPass, PreemptionPass.mem_preemptedSlots_foldl]
  simp only [ExtTreeSet.not_mem_empty, false_or, Prod.exists, BTreeMap.mem_toList]
  constructor
  · rintro ⟨_, node, hcurrent, rfl, hdisplaced⟩
    exact ⟨node, hcurrent, hdisplaced⟩
  · rintro ⟨node, hcurrent, hdisplaced⟩
    exact ⟨index, node, hcurrent, rfl, hdisplaced⟩

theorem moved_lookup (index : Nat) :
    input.moved[index]? = if index ∈ input.movedSlots then input.target else none := by
  rw [moved, preemptionPass,
    PreemptionPass.moved_foldl (fun _ => replacement_of_displaced), movedSlots]
  cases input.target with
  | none => simp
  | some node => simp [displacedSlots]

theorem mem_displacedSlots (index : Nat) (node : String) :
    (index, node) ∈ input.displacedSlots ↔
      input.current[index]? = some node ∧ node ∈ input.displaced := by
  simp [displacedSlots]

theorem movedSlots_length_le : input.movedSlots.length ≤ input.budget := by
  unfold movedSlots
  split
  · simp
  · simp

theorem movedSlots_nodup : input.movedSlots.Nodup := by
  unfold movedSlots
  split
  · have hsub : (input.displacedSlots.take input.budget).map Prod.fst |>.Sublist
        (input.current.toList.map Prod.fst) :=
      ((List.take_sublist _ _).trans List.filter_sublist).map _
    exact hsub.nodup (BTreeMap.keys_nodup _)
  · exact List.nodup_nil

theorem of_mem_movedSlots {index : Nat} (hmem : index ∈ input.movedSlots) :
    (∃ node, input.current[index]? = some node ∧ node ∈ input.displaced) ∧
      ∃ node, input.target = some node := by
  unfold movedSlots at hmem
  split at hmem
  · next htarget =>
      obtain ⟨⟨_, node⟩, htake, rfl⟩ := List.mem_map.mp hmem
      exact ⟨⟨node, (mem_displacedSlots _ _).mp (List.mem_of_mem_take htake)⟩,
        Option.isSome_iff_exists.mp htarget⟩
  · simp at hmem

/-! ## The planned slots -/

theorem mem_missing (index : Nat) :
    index ∈ input.missing ↔ index < input.desired ∧ input.current[index]? = none := by
  simp [missing]

theorem desired_lt : input.desired < 2 ^ 31 := by
  have hlt := input.fleet.spec.replicas.toInt_lt
  unfold desired
  omega

theorem missing_length_lt : input.missing.length < 2 ^ 31 := by
  have hle : input.missing.length ≤ (List.range input.desired).length :=
    List.length_filter_le _ _
  rw [List.length_range] at hle
  exact Nat.lt_of_le_of_lt hle desired_lt

theorem int32_ofNat_toInt {value : Nat} (hlt : value < 2 ^ 31) :
    (Int32.ofNat value).toInt = value :=
  Int32.toInt_ofNat_of_lt hlt

theorem fresh_eq : input.fresh = planPicks input.strategy input.horizonSecs
    input.missing.length input.healthyCandidates := by
  rw [fresh, planInitialPlacements, int32_ofNat_toInt missing_length_lt, Int.toNat_natCast]

theorem fresh_length (hsupported : input.strategy.isSupported = true)
    (hhealthy : input.healthyCandidates ≠ []) :
    input.fresh.length = input.missing.length := by
  rw [fresh_eq, planPicks_length hsupported _ hhealthy]

theorem fresh_of_no_healthy (hnone : input.healthyCandidates = []) : input.fresh = [] := by
  rw [fresh_eq, hnone, planPicks_nil]

theorem slotNodes_eq : input.slotNodes =
    (List.range input.desired).filterMap fun index => (input.pin index).map (Prod.mk index) := by
  refine assignSlots_eq input.moved input.current (fun index => ?_) List.nodup_range _
  simp only [decide_eq_true_eq, ← ExtTreeMap.isSome_getElem?_iff_mem,
    Option.not_isSome_iff_eq_none, moved_lookup]
  constructor
  · intro hcurrent
    refine ⟨?_, hcurrent⟩
    split
    · next hmoved =>
        obtain ⟨⟨node, hnode, -⟩, -⟩ := of_mem_movedSlots hmoved
        simp [hcurrent] at hnode
    · rfl
  · exact And.right

theorem mem_slotNodes (index : Nat) (node : String) :
    (index, node) ∈ input.slotNodes ↔ index < input.desired ∧ input.pin index = some node := by
  rw [slotNodes_eq, BTreeMap.mem_over_range]

theorem slotNodes_sorted :
    input.slotNodes.Pairwise fun left right => left.1 < right.1 := by
  rw [slotNodes_eq]
  exact BTreeMap.sorted_over_range _ _

theorem pin_cases {index : Nat} {node : String} (hpin : input.pin index = some node) :
    (index ∈ input.movedSlots ∧ input.target = some node) ∨
      (index ∉ input.movedSlots ∧ input.current[index]? = some node) ∨
      (input.current[index]? = none ∧ index ∈ input.missing ∧ node ∈ input.fresh) := by
  rw [pin, moved_lookup] at hpin
  by_cases hmoved : index ∈ input.movedSlots
  · obtain ⟨-, target, htarget⟩ := of_mem_movedSlots hmoved
    rw [if_pos hmoved, htarget] at hpin
    exact .inl ⟨hmoved, by simpa [htarget] using hpin⟩
  · rw [if_neg hmoved, Option.none_or] at hpin
    cases hcurrent : input.current[index]? with
    | some existing =>
        rw [hcurrent] at hpin
        exact .inr (.inl ⟨hmoved, by simpa using hpin⟩)
    | none =>
        rw [hcurrent, Option.none_or] at hpin
        exact .inr (.inr ⟨rfl, mem_of_lookup_zip hpin⟩)

theorem pin_of_moved {index : Nat} (hmoved : index ∈ input.movedSlots) :
    input.pin index = input.target := by
  obtain ⟨-, target, htarget⟩ := of_mem_movedSlots hmoved
  rw [pin, moved_lookup, if_pos hmoved, htarget]
  simp

theorem pin_of_kept {index : Nat} {node : String} (hmoved : index ∉ input.movedSlots)
    (hcurrent : input.current[index]? = some node) : input.pin index = some node := by
  rw [pin, moved_lookup, if_neg hmoved, hcurrent]
  simp

theorem moved_of_repinned {index : Nat} {node : String}
    (hcurrent : input.current[index]? = some node) (hpin : input.pin index ≠ some node) :
    index ∈ input.movedSlots ∧ node ∈ input.displaced := by
  have hmoved : index ∈ input.movedSlots := by
    by_contra hkept
    exact hpin (pin_of_kept hkept hcurrent)
  obtain ⟨⟨before, hbefore, hdisplaced⟩, -⟩ := of_mem_movedSlots hmoved
  rw [hcurrent, Option.some.injEq] at hbefore
  exact ⟨hmoved, hbefore ▸ hdisplaced⟩

theorem current_of_pin_eq_none {index : Nat} (hpin : input.pin index = none) :
    input.current[index]? = none := by
  cases hcurrent : input.current[index]? with
  | none => rfl
  | some node =>
      simp [pin, hcurrent] at hpin

theorem pin_of_missing {index : Nat} (hcurrent : input.current[index]? = none) :
    input.pin index = (input.missing.zip input.fresh).lookup index := by
  have hmoved : index ∉ input.movedSlots := by
    intro hmoved
    obtain ⟨⟨node, hnode, -⟩, -⟩ := of_mem_movedSlots hmoved
    simp [hcurrent] at hnode
  rw [pin, moved_lookup, if_neg hmoved, hcurrent]
  simp

theorem fresh_mem {node : String} (hmem : node ∈ input.fresh) :
    ∃ candidate ∈ input.healthyCandidates, candidate.name = node := by
  rw [fresh_eq] at hmem
  exact List.mem_map.mp (planPicks_mem hmem)

theorem pin_isSome (hsupported : input.strategy.isSupported = true)
    (hhealthy : input.healthyCandidates ≠ []) {index : Nat} (hrange : index < input.desired) :
    ∃ node, input.pin index = some node := by
  cases hcurrent : input.current[index]? with
  | some node =>
      by_cases hmoved : index ∈ input.movedSlots
      · rw [pin_of_moved hmoved]
        exact (of_mem_movedSlots hmoved).2
      · exact ⟨node, pin_of_kept hmoved hcurrent⟩
  | none =>
      rw [pin_of_missing hcurrent]
      exact lookup_zip_isSome ((mem_missing index).mpr ⟨hrange, hcurrent⟩)
        (fresh_length hsupported hhealthy).ge

theorem missing_filterMap_pin (hsupported : input.strategy.isSupported = true)
    (hhealthy : input.healthyCandidates ≠ []) :
    input.missing.filterMap input.pin = input.fresh := by
  have hnodup : input.missing.Nodup := List.nodup_range.filter _
  rw [← filterMap_lookup_zip hnodup (fresh_length hsupported hhealthy).symm]
  refine List.filterMap_congr fun index hindex => ?_
  exact pin_of_missing ((mem_missing index).mp hindex).2

theorem movedSlots_of_no_healthy (hnone : input.healthyCandidates = []) :
    input.movedSlots = [] := by
  simp [movedSlots, target_of_no_healthy hnone]

theorem pin_of_no_healthy (hnone : input.healthyCandidates = []) (index : Nat) :
    input.pin index = input.current[index]? := by
  rw [pin, moved_lookup, movedSlots_of_no_healthy hnone, fresh_of_no_healthy hnone]
  simp

theorem pin_not_displaced {index : Nat} {node : String} (hpin : input.pin index = some node)
    (hchanged : input.current[index]? ≠ some node) : node ∉ input.displaced := by
  rcases pin_cases hpin with ⟨-, htarget⟩ | ⟨-, hkept⟩ | ⟨-, -, hfresh⟩
  · exact target_not_displaced htarget
  · exact absurd hkept hchanged
  · obtain ⟨candidate, hmem, rfl⟩ := fresh_mem hfresh
    exact (mem_healthyCandidates hmem).2

end ReconcileInput

end VllmColdstartOperator
