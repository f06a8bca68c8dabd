import VllmColdstartOperator.Guarantees.ListOrder

/-!
# The names of the children

The child of a slot is named by the fleet and the slot's number, and no two
fleets or slots share a name.  Reading a name back keeps only what follows the
last dash, so it accepts names no slot has: with another prefix, a plus sign or
leading zeros.
-/

namespace VllmColdstartOperator

open Foundation Std

/-! ## Writing a name -/

theorem childName_split (fleetName : String) (index : Nat) :
    rsplitOnce (childName fleetName index) '-' = some (fleetName, toString index) :=
  rsplitOnce_append (dash_not_mem_toString index) fleetName

theorem childName_pair_inj {fleetName other : String} {left right : Nat}
    (hsame : childName fleetName left = childName other right) :
    fleetName = other ∧ left = right := by
  have hsplit := childName_split fleetName left
  rw [hsame, childName_split, Option.some.injEq, Prod.mk.injEq] at hsplit
  obtain ⟨rfl, -⟩ := hsplit
  exact ⟨rfl, (childName_inj _ _ _).mp hsame⟩

/-! ## Reading a name -/

/-- A number stands behind the last dash, but the name is not how the fleet
writes it: something else stands before the dash, or a plus sign or a leading
zero behind it. -/
def Misread (fleetName name : String) : Prop :=
  ∃ (head : String) (plus : Bool) (digits : List Char),
    name = head ++ String.singleton '-' ++
      String.ofList ((if plus then ['+'] else []) ++ digits) ∧
    digits ≠ [] ∧ digits.all Char.isDigit = true ∧
    Nat.ofDigitChars 10 digits 0 ≤ usizeMax ∧
    (head ≠ fleetName ∨ plus = true ∨ ∃ rest, rest ≠ [] ∧ digits = '0' :: rest)

theorem dash_not_mem_signed (plus : Bool) {digits : List Char}
    (hdigits : digits.all Char.isDigit = true) :
    '-' ∉ (String.ofList ((if plus then ['+'] else []) ++ digits)).toList := by
  rw [String.toList_ofList, List.mem_append]
  rintro (hsign | hdigit)
  · cases plus <;> simp at hsign
  · exact absurd (List.all_eq_true.mp hdigits _ hdigit) (by decide)

theorem slotIndexOf_eq_some_iff {name : String} {index : Nat} :
    slotIndexOf name = some index ↔ index ≤ usizeMax ∧
      ∃ (head : String) (plus : Bool) (digits : List Char),
        name = head ++ String.singleton '-' ++
          String.ofList ((if plus then ['+'] else []) ++ digits) ∧
        digits ≠ [] ∧ digits.all Char.isDigit = true ∧
        Nat.ofDigitChars 10 digits 0 = index := by
  rw [slotIndexOf]
  constructor
  · intro hread
    obtain ⟨split, hsplit, hparse⟩ := Option.bind_eq_some_iff.mp hread
    obtain ⟨hle, plus, digits, htext, hdigits⟩ := parseUsize_eq_some_iff.mp hparse
    refine ⟨hle, split.1, plus, digits, ?_, hdigits⟩
    rw [← htext, String.ofList_toList]
    exact (rsplitOnce_eq_some_iff.mp hsplit).1
  · rintro ⟨hle, head, plus, digits, rfl, hdigits⟩
    rw [rsplitOnce_append (dash_not_mem_signed plus hdigits.2.1)]
    exact parseUsize_eq_some_iff.mpr ⟨hle, plus, digits, String.toList_ofList, hdigits⟩

theorem slotIndexOf_le {name : String} {index : Nat} (hread : slotIndexOf name = some index) :
    index ≤ usizeMax :=
  (slotIndexOf_eq_some_iff.mp hread).1

/-- A name is the slot's when the fleet, no sign and the canonical digits make it. -/
theorem name_eq_childName_iff {fleetName head : String} {plus : Bool} {digits : List Char}
    (hne : digits ≠ []) (hdigits : digits.all Char.isDigit = true) :
    head ++ String.singleton '-' ++ String.ofList ((if plus then ['+'] else []) ++ digits) =
        childName fleetName (Nat.ofDigitChars 10 digits 0) ↔
      head = fleetName ∧ plus = false ∧ ∀ rest, digits = '0' :: rest → rest = [] := by
  rw [← toString_ofDigitChars_iff hne hdigits]
  constructor
  · intro hname
    have hsplit := rsplitOnce_append (dash_not_mem_signed plus hdigits) head
    rw [hname, childName_split, Option.some.injEq, Prod.mk.injEq] at hsplit
    obtain ⟨hhead, htail⟩ := hsplit
    have hdecimal := congrArg String.toList htail
    rw [String.toList_ofList] at hdecimal
    cases plus with
    | true =>
        have hsign : '+' ∈ (toString (Nat.ofDigitChars 10 digits 0)).toList := by
          rw [hdecimal]
          exact List.mem_cons_self
        exact absurd (isDigit_of_mem_repr hsign) (by decide)
    | false => exact ⟨hhead.symm, rfl, hdecimal⟩
  · rintro ⟨rfl, rfl, hdecimal⟩
    have htail : String.ofList digits = toString (Nat.ofDigitChars 10 digits 0) :=
      String.toList_inj.mp (by rw [String.toList_ofList, hdecimal])
    rw [if_neg Bool.false_ne_true, List.nil_append, htail]
    rfl

theorem misread_iff {fleetName name : String} :
    Misread fleetName name ↔
      ∃ index, slotIndexOf name = some index ∧ name ≠ childName fleetName index := by
  constructor
  · rintro ⟨head, plus, digits, rfl, hne, hdigits, hle, hspelling⟩
    refine ⟨_, slotIndexOf_eq_some_iff.mpr ⟨hle, head, plus, digits, rfl, hne, hdigits, rfl⟩, ?_⟩
    rw [Ne, name_eq_childName_iff hne hdigits]
    rintro ⟨hhead, hplus, hcanonical⟩
    rcases hspelling with hother | hsigned | ⟨rest, hrest, hzero⟩
    · exact hother hhead
    · rw [hplus] at hsigned
      cases hsigned
    · exact hrest (hcanonical rest hzero)
  · rintro ⟨index, hread, hname⟩
    obtain ⟨hle, head, plus, digits, rfl, hne, hdigits, rfl⟩ := slotIndexOf_eq_some_iff.mp hread
    refine ⟨head, plus, digits, rfl, hne, hdigits, hle, ?_⟩
    rw [Ne, name_eq_childName_iff hne hdigits] at hname
    by_contra hspelling
    rw [not_or, not_or] at hspelling
    obtain ⟨hhead, hplus, hzero⟩ := hspelling
    refine hname ⟨not_not.mp hhead, by simpa using hplus, fun rest hrest => ?_⟩
    by_contra hmore
    exact hzero ⟨rest, hmore, hrest⟩

/-! ## Children and other objects -/

def isChildName (fleetName name : String) : Bool :=
  (slotIndexOf name).any fun index => name = childName fleetName index

theorem isChildName_iff {fleetName name : String} :
    isChildName fleetName name = true ↔
      ∃ index ≤ usizeMax, name = childName fleetName index := by
  rw [isChildName, Option.any_eq_true]
  constructor
  · rintro ⟨index, hread, hname⟩
    exact ⟨index, slotIndexOf_le hread, of_decide_eq_true hname⟩
  · rintro ⟨index, hle, rfl⟩
    refine ⟨index, ?_, decide_eq_true rfl⟩
    rw [slotIndexOf_childName, if_pos hle]

def VllmService.TakenAs (child : VllmService) (index : Nat) : Prop :=
  ∃ node, slotPin child = some (index, node)

theorem VllmService.takenAs_iff {child : VllmService} {index : Nat} :
    child.TakenAs index ↔
      slotIndexOf child.name = some index ∧ child.spec.nodeName.isSome = true := by
  rw [TakenAs, slotPin]
  cases slotIndexOf child.name with
  | none => simp
  | some found =>
      cases child.spec.nodeName with
      | none => simp
      | some node => simp

namespace ReconcileInput

/-- The fleet's objects are taken as slots by their names. -/
def SlotsAreNames (input : ReconcileInput) : Prop :=
  ∀ child ∈ input.existing, ∀ index ≤ usizeMax,
    child.TakenAs index ↔ child.name = childName input.fleet.name index

def withoutForeign (input : ReconcileInput) : ReconcileInput :=
  { input with
    existing := input.existing.filter fun child => isChildName input.fleet.name child.name }

/-- The calls are those of a reconcile that never read the foreign objects. -/
def IgnoresForeign (input : ReconcileInput) : Prop :=
  reconcileInner input = reconcileInner input.withoutForeign

variable {input : ReconcileInput}

theorem withoutForeign_current (hnames : input.SlotsAreNames) :
    input.withoutForeign.current = input.current := by
  rw [current, current, withoutForeign, List.filterMap_filter]
  congr 1
  refine List.filterMap_congr fun child hchild => ?_
  split
  next => rfl
  next hforeign =>
    symm
    rw [Option.eq_none_iff_forall_not_mem]
    intro slot hslot
    have htaken : child.TakenAs slot.1 := ⟨slot.2, hslot⟩
    have hle := slotIndexOf_le (VllmService.takenAs_iff.mp htaken).1
    exact hforeign (isChildName_iff.mpr ⟨slot.1, hle, (hnames child hchild slot.1 hle).mp htaken⟩)

theorem withoutForeign_childReady {index : Nat} (hle : index ≤ usizeMax) :
    input.childReady[childName input.fleet.name index]? =
      input.withoutForeign.childReady[childName input.fleet.name index]? := by
  rw [childReady, childReady, BTreeMap.lookup_collect, BTreeMap.lookup_collect, withoutForeign,
    ← List.map_reverse, ← List.map_reverse, List.find?_map, List.find?_map,
    ← List.filter_reverse, List.find?_filter]
  congr 2
  refine List.find?_congr fun child _ => ?_
  simp only [Function.comp_apply]
  by_cases hname : child.name = childName input.fleet.name index
  · simp [hname, isChildName_iff.mpr ⟨index, hle, rfl⟩]
  · simp [hname]

theorem ignoresForeign_of_slotsAreNames (hnames : input.SlotsAreNames) :
    input.IgnoresForeign := by
  have hsame : input.DecidesSame input.withoutForeign := {
    fleet := rfl
    current := (withoutForeign_current hnames).symm
    poolCandidates := rfl
    derivedWarmth := rfl
    displaced := rfl
    allocatable := rfl }
  exact hsame.reconcileInner_eq fun _ hle => withoutForeign_childReady hle

end ReconcileInput

/-- No two fleets or slots share a child's name.  A reconcile takes the fleet's
objects as slots by their names, and ignores the others, exactly when no object
that is pinned to a node has a name that is misread, and every object with a
slot's name is pinned. -/
theorem slots_are_names_iff (input : ReconcileInput) :
    (∀ (other : String) (left right : Nat),
      childName input.fleet.name left = childName other right →
        input.fleet.name = other ∧ left = right) ∧
    (input.SlotsAreNames ∧ input.IgnoresForeign ↔
      ∀ child ∈ input.existing,
        (child.spec.nodeName.isSome = true → ¬ Misread input.fleet.name child.name) ∧
        ∀ index ≤ usizeMax, child.name = childName input.fleet.name index →
          child.spec.nodeName.isSome = true) := by
  refine ⟨fun other left right => childName_pair_inj, ?_⟩
  constructor
  · rintro ⟨hnames, -⟩ child hchild
    constructor
    · intro hnode hmisread
      obtain ⟨index, hread, hname⟩ := misread_iff.mp hmisread
      exact hname ((hnames child hchild index (slotIndexOf_le hread)).mp
        (VllmService.takenAs_iff.mpr ⟨hread, hnode⟩))
    · intro index hle hname
      exact (VllmService.takenAs_iff.mp ((hnames child hchild index hle).mpr hname)).2
  · intro hread
    have hnames : input.SlotsAreNames := by
      intro child hchild index hle
      rw [VllmService.takenAs_iff]
      constructor
      · rintro ⟨hindex, hnode⟩
        by_contra hname
        exact (hread child hchild).1 hnode (misread_iff.mpr ⟨index, hindex, hname⟩)
      · intro hname
        refine ⟨?_, (hread child hchild).2 index hle hname⟩
        rw [hname, slotIndexOf_childName, if_pos hle]
    exact ⟨hnames, ReconcileInput.ignoresForeign_of_slotsAreNames hnames⟩

namespace Sample

/-- A labelled service of another name that ends in a number. -/
def stray : VllmService :=
  { childOn "n" with metadata := { (childOn "n").metadata with name := "web-007" } }

def besideStray : ReconcileInput where
  fleet := ⟨metadata, spec 1 0 1, none⟩
  snapshot := snapshot ["n"] []
  existing := [stray]

/-- The stray object is taken as slot 7, and a child that was never read is
deleted. -/
theorem stray_taken_as_slot :
    besideStray.fleet.name = "fleet" ∧ stray.metadata.label fleetLabel = some "fleet" ∧
      stray ∈ besideStray.existing ∧ stray.TakenAs 7 ∧ stray.name ≠ childName "fleet" 7 ∧
      besideStray.removedSlots = [(7, "n")] := by
  refine ⟨rfl, ?_, List.mem_singleton.mpr rfl, ⟨"n", ?_⟩, ?_, ?_⟩
  · simp [stray, ObjectMeta.label, childOn, ownedVllmService, BTreeMap.collect, fleetOfOne,
      FleetService.name, metadata]
  · decide +kernel
  · decide +kernel
  · decide +kernel

end Sample

end VllmColdstartOperator
