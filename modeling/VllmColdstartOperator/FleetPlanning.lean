import VllmColdstartOperator.Foundation.Spread
import VllmColdstartOperator.FleetPlacement

/-!
# Planning a batch of fresh placements

The greedy planner: each pick raises the chosen node's simulated load before
the next one.  With one candidate for each name the picks spread: each goes to a
node with the fewest of the fleet's replicas, the earlier picks counted.
-/

namespace VllmColdstartOperator

open Foundation

/-- The load one more placement adds to the first candidate of that name. -/
def simulatePlacement (name : String) : List NodeCandidate → List NodeCandidate
  | [] => []
  | candidate :: rest =>
      if candidate.name = name then
        { candidate with
          activeServiceCount := some (candidate.activeServiceCount.getD 0 + 1)
          ownReplicas := candidate.ownReplicas + 1 } :: rest
      else candidate :: simulatePlacement name rest

def planPicks (strategy : PlacementStrategy) (horizonSecs : Option Int) :
    Nat → List NodeCandidate → List String
  | 0, _ => []
  | slots + 1, working =>
      match selectNodeWithStrategy working strategy horizonSecs with
      | none => []
      | some best =>
          best.name :: planPicks strategy horizonSecs slots
            (simulatePlacement best.name working)

def planInitialPlacements (slotsToFill : Int32) (candidates : List NodeCandidate)
    (strategy : PlacementStrategy) (horizonSecs : Option Int) : List String :=
  planPicks strategy horizonSecs slotsToFill.toInt.toNat candidates

/-! ## In a build with overflow checks -/

/-- One more, which panics at the top of the type. -/
def checkedSucc (count : Int32) : Option Int32 :=
  if count = i32Max then none else some (count + 1)

def simulatePlacementChecked (name : String) : List NodeCandidate → Option (List NodeCandidate)
  | [] => some []
  | candidate :: rest =>
      if candidate.name = name then do
        let activeServiceCount ← checkedSucc (candidate.activeServiceCount.getD 0)
        let ownReplicas ← checkedSucc candidate.ownReplicas
        some ({ candidate with
          activeServiceCount := some activeServiceCount
          ownReplicas } :: rest)
      else do
        let loaded ← simulatePlacementChecked name rest
        some (candidate :: loaded)

def planPicksChecked (strategy : PlacementStrategy) (horizonSecs : Option Int) :
    Nat → List NodeCandidate → Option (List String)
  | 0, _ => some []
  | slots + 1, working =>
      match selectNodeWithStrategy working strategy horizonSecs with
      | none => some []
      | some best => do
          let loaded ← simulatePlacementChecked best.name working
          let picks ← planPicksChecked strategy horizonSecs slots loaded
          some (best.name :: picks)

def planInitialPlacementsChecked (slotsToFill : Int32) (candidates : List NodeCandidate)
    (strategy : PlacementStrategy) (horizonSecs : Option Int) : Option (List String) :=
  planPicksChecked strategy horizonSecs slotsToFill.toInt.toNat candidates

/-! ## The names picked -/

variable {strategy : PlacementStrategy} {horizonSecs : Option Int}

@[simp] theorem simulatePlacement_names (name : String) (working : List NodeCandidate) :
    (simulatePlacement name working).map NodeCandidate.name =
      working.map NodeCandidate.name := by
  induction working with
  | nil => rfl
  | cons candidate rest ih =>
      rw [simulatePlacement]
      split
      · rfl
      · simp [ih]

theorem simulatePlacement_ne_nil {name : String} {working : List NodeCandidate}
    (hne : working ≠ []) : simulatePlacement name working ≠ [] := by
  intro hnil
  have hnames := simulatePlacement_names name working
  rw [hnil] at hnames
  exact hne (List.map_eq_nil_iff.mp hnames.symm)

@[simp] theorem planPicks_nil (slots : Nat) : planPicks strategy horizonSecs slots [] = [] := by
  cases slots <;> simp [planPicks]

theorem planPicks_length (hsupported : strategy.isSupported = true) (slots : Nat)
    {working : List NodeCandidate} (hne : working ≠ []) :
    (planPicks strategy horizonSecs slots working).length = slots := by
  induction slots generalizing working with
  | zero => rfl
  | succ slots ih =>
      obtain ⟨best, hbest⟩ : ∃ best,
          selectNodeWithStrategy working strategy horizonSecs = some best :=
        selectNodeWithStrategy_isSome hsupported hne
      simp [planPicks, hbest, ih (simulatePlacement_ne_nil hne)]

theorem planPicks_length_le (slots : Nat) (working : List NodeCandidate) :
    (planPicks strategy horizonSecs slots working).length ≤ slots := by
  induction slots generalizing working with
  | zero => simp [planPicks]
  | succ slots ih =>
      rw [planPicks]
      cases selectNodeWithStrategy working strategy horizonSecs with
      | none => simp
      | some best => simpa using ih (simulatePlacement best.name working)

theorem planPicks_mem {slots : Nat} {working : List NodeCandidate} {name : String}
    (hmem : name ∈ planPicks strategy horizonSecs slots working) :
    name ∈ working.map NodeCandidate.name := by
  induction slots generalizing working with
  | zero => simp [planPicks] at hmem
  | succ slots ih =>
      rw [planPicks] at hmem
      cases hbest : selectNodeWithStrategy working strategy horizonSecs with
      | none => simp [hbest] at hmem
      | some best =>
          simp only [hbest, List.mem_cons] at hmem
          rcases hmem with rfl | htail
          · exact List.mem_map_of_mem (selectNodeWithStrategy_mem hbest)
          · simpa using ih htail

/-- A batch is planned like its first part and then the rest on the load that
part simulates. -/
theorem planPicks_add (first second : Nat) (working : List NodeCandidate) :
    planPicks strategy horizonSecs (first + second) working =
      planPicks strategy horizonSecs first working ++
        planPicks strategy horizonSecs second
          ((planPicks strategy horizonSecs first working).foldl
            (fun working name => simulatePlacement name working) working) := by
  induction first generalizing working with
  | zero => simp [planPicks]
  | succ first ih =>
      rw [Nat.succ_add, planPicks, planPicks]
      cases hbest : selectNodeWithStrategy working strategy horizonSecs with
      | none =>
          cases second with
          | zero => simp [planPicks]
          | succ second => simp [planPicks, hbest]
      | some best => simp [ih]

theorem planPicks_take (hsupported : strategy.isSupported = true) {first slots : Nat}
    (hle : first ≤ slots) (working : List NodeCandidate) :
    (planPicks strategy horizonSecs slots working).take first =
      planPicks strategy horizonSecs first working := by
  by_cases hne : working = []
  · simp [hne]
  · rw [← Nat.add_sub_cancel' hle, planPicks_add]
    exact List.take_left' (planPicks_length hsupported first hne)

theorem planInitialPlacements_prefix {fewer more : Int32} (hle : fewer ≤ more)
    (candidates : List NodeCandidate) :
    planInitialPlacements fewer candidates strategy horizonSecs <+:
      planInitialPlacements more candidates strategy horizonSecs := by
  have hslots : more.toInt.toNat =
      fewer.toInt.toNat + (more.toInt.toNat - fewer.toInt.toNat) := by
    have := Int32.le_iff_toInt_le.mp hle
    omega
  rw [planInitialPlacements, planInitialPlacements, hslots, planPicks_add]
  exact List.prefix_append _ _

/-! ## The picks spread -/

/-- A candidate that some placements of this batch were simulated on. -/
def NodeCandidate.loadedBy (placed : Nat) (candidate : NodeCandidate) : NodeCandidate :=
  if placed = 0 then candidate
  else { candidate with
    activeServiceCount := some (candidate.activeServiceCount.getD 0 + Int32.ofNat placed)
    ownReplicas := candidate.ownReplicas + Int32.ofNat placed }

@[simp] theorem loadedBy_zero (candidate : NodeCandidate) : candidate.loadedBy 0 = candidate :=
  rfl

@[simp] theorem loadedBy_name (placed : Nat) (candidate : NodeCandidate) :
    (candidate.loadedBy placed).name = candidate.name := by
  unfold NodeCandidate.loadedBy
  split <;> rfl

theorem loadedBy_ownReplicas (placed : Nat) (candidate : NodeCandidate) :
    (candidate.loadedBy placed).ownReplicas = candidate.ownReplicas + Int32.ofNat placed := by
  unfold NodeCandidate.loadedBy
  split
  · next hzero => simp [hzero]
  · rfl

theorem loadedBy_toInt {placed : Nat} {candidate : NodeCandidate}
    (hfits : candidate.ownReplicas.toInt + placed < 2 ^ 31) :
    (candidate.loadedBy placed).ownReplicas.toInt = candidate.ownReplicas.toInt + placed := by
  have hlow := candidate.ownReplicas.le_toInt
  rw [loadedBy_ownReplicas, Int32.toInt_add, Int32.toInt_ofNat', Int.add_bmod_bmod]
  change (candidate.ownReplicas.toInt + placed).bmod (2 ^ 32) = _
  rw [Int.bmod_eq_of_le] <;> omega

theorem loadedBy_succ (placed : Nat) (candidate : NodeCandidate) :
    (candidate.loadedBy 1).loadedBy placed = candidate.loadedBy (placed + 1) := by
  cases placed with
  | zero => rfl
  | succ placed =>
      have hsum : ∀ count : Int32,
          count + 1 + (Int32.ofNat placed + 1) = count + (Int32.ofNat placed + 1 + 1) := by
        intro count
        rw [Int32.add_assoc, Int32.add_comm 1]
      simp [NodeCandidate.loadedBy, hsum]

theorem simulatePlacement_eq_map {working : List NodeCandidate}
    (hnodup : (working.map NodeCandidate.name).Nodup) (name : String) :
    simulatePlacement name working = working.map fun candidate =>
      candidate.loadedBy (if candidate.name = name then 1 else 0) := by
  induction working with
  | nil => rfl
  | cons candidate rest ih =>
      obtain ⟨habsent, hrest⟩ := List.nodup_cons.mp hnodup
      rw [simulatePlacement, List.map_cons]
      by_cases hname : candidate.name = name
      · have hothers : rest.map (fun other =>
            other.loadedBy (if other.name = name then 1 else 0)) = rest := by
          conv_rhs => rw [← List.map_id rest]
          refine List.map_congr_left fun other hother => ?_
          have hne : other.name ≠ name := by
            rintro rfl
            exact habsent (hname ▸ List.mem_map_of_mem hother)
          rw [if_neg hne]
          rfl
        rw [if_pos hname, if_pos hname, hothers]
        rfl
      · rw [if_neg hname, if_neg hname, ih hrest, loadedBy_zero]

theorem foldl_simulatePlacement {working : List NodeCandidate}
    (hnodup : (working.map NodeCandidate.name).Nodup) (picks : List String) :
    picks.foldl (fun working name => simulatePlacement name working) working =
      working.map fun candidate => candidate.loadedBy (picks.count candidate.name) := by
  induction picks generalizing working with
  | nil => simp
  | cons pick picks ih =>
      rw [List.foldl_cons, ih (by simpa using hnodup), simulatePlacement_eq_map hnodup,
        List.map_map]
      refine List.map_congr_left fun candidate _ => ?_
      rw [Function.comp_apply, loadedBy_name, List.count_cons]
      by_cases hname : candidate.name = pick
      · rw [if_pos hname, hname, loadedBy_succ, if_pos (by simp)]
      · rw [if_neg hname, loadedBy_zero, if_neg (by simpa using Ne.symm hname), Nat.add_zero]

theorem planPicks_eq_cons {slots : Nat} {working : List NodeCandidate} {pick : String}
    {picks : List String}
    (hplan : planPicks strategy horizonSecs slots working = pick :: picks) :
    ∃ best, selectNodeWithStrategy working strategy horizonSecs = some best ∧ best.name = pick ∧
      picks = planPicks strategy horizonSecs (slots - 1) (simulatePlacement pick working) := by
  cases slots with
  | zero => simp [planPicks] at hplan
  | succ slots =>
      rw [planPicks] at hplan
      cases hbest : selectNodeWithStrategy working strategy horizonSecs with
      | none => simp [hbest] at hplan
      | some best =>
          rw [hbest, List.cons.injEq] at hplan
          obtain ⟨rfl, rfl⟩ := hplan
          exact ⟨best, rfl, rfl, rfl⟩

theorem planPicks_split {slots : Nat} {working : List NodeCandidate}
    (hnodup : (working.map NodeCandidate.name).Nodup) {before after : List String} {pick : String}
    (hsplit : planPicks strategy horizonSecs slots working = before ++ pick :: after) :
    ∃ best, selectNodeWithStrategy (working.map fun candidate =>
        candidate.loadedBy (before.count candidate.name)) strategy horizonSecs = some best ∧
      best.name = pick := by
  rw [← foldl_simulatePlacement hnodup]
  clear hnodup
  induction before generalizing slots working with
  | nil =>
      obtain ⟨best, hbest, hname, -⟩ := planPicks_eq_cons hsplit
      exact ⟨best, hbest, hname⟩
  | cons head before ih =>
      obtain ⟨-, -, -, hrest⟩ := planPicks_eq_cons hsplit
      exact ih hrest.symm

def selectAfter (strategy : PlacementStrategy) (horizonSecs : Option Int)
    (working : List NodeCandidate) (picks : List String) : Option String :=
  (selectNodeWithStrategy (working.map fun candidate =>
    candidate.loadedBy (picks.count candidate.name)) strategy horizonSecs).map NodeCandidate.name

theorem selectAfter_nil (working : List NodeCandidate) :
    selectAfter strategy horizonSecs working [] =
      (selectNodeWithStrategy working strategy horizonSecs).map NodeCandidate.name := by
  simp [selectAfter]

theorem selectAfter_eq_none {working : List NodeCandidate} {picks : List String}
    (hnone : selectAfter strategy horizonSecs working picks = none) (others : List String) :
    selectAfter strategy horizonSecs working others = none := by
  cases hsupported : strategy.isSupported with
  | false =>
      cases strategy with
      | unsupported => rfl
      | warmthFirst => cases hsupported
      | efficiencyAware => cases hsupported
  | true =>
      by_cases hworking : working = []
      · simp [selectAfter, hworking]
      · obtain ⟨best, hbest⟩ : ∃ best, selectNodeWithStrategy (working.map fun candidate =>
            candidate.loadedBy (picks.count candidate.name)) strategy horizonSecs = some best :=
          selectNodeWithStrategy_isSome hsupported (by simpa using hworking)
        rw [selectAfter, hbest] at hnone
        cases hnone

theorem planPicks_succ_after {working : List NodeCandidate}
    (hnodup : (working.map NodeCandidate.name).Nodup) (slots : Nat) (picks : List String) :
    planPicks strategy horizonSecs (slots + 1) (working.map fun candidate =>
        candidate.loadedBy (picks.count candidate.name)) =
      match selectAfter strategy horizonSecs working picks with
      | none => []
      | some name => name :: planPicks strategy horizonSecs slots (working.map fun candidate =>
          candidate.loadedBy ((picks ++ [name]).count candidate.name)) := by
  rw [planPicks, selectAfter]
  cases selectNodeWithStrategy (working.map fun candidate =>
      candidate.loadedBy (picks.count candidate.name)) strategy horizonSecs with
  | none => rfl
  | some best =>
      dsimp only [Option.map_some]
      rw [← foldl_simulatePlacement hnodup, ← foldl_simulatePlacement hnodup, List.foldl_append]
      rfl

theorem selected_least_of_fits {working : List NodeCandidate} {own : String → Nat} {start : Nat}
    (hcounted : ∀ candidate ∈ working, candidate.ownReplicas.toInt + start = own candidate.name)
    {picks : List String}
    (hfits : ∀ candidate ∈ working,
      candidate.ownReplicas.toInt + picks.count candidate.name < 2 ^ 31)
    {best : NodeCandidate}
    (hbest : selectNodeWithStrategy (working.map fun candidate =>
      candidate.loadedBy (picks.count candidate.name)) strategy horizonSecs = some best)
    {other : NodeCandidate} (hother : other ∈ working) :
    load own picks best.name ≤ load own picks other.name := by
  obtain ⟨chosen, hchosen, rfl⟩ := List.mem_map.mp (selectNodeWithStrategy_mem hbest)
  have hle := selectNodeWithStrategy_ownReplicas_le hbest (List.mem_map_of_mem hother)
  rw [loadedBy_toInt (hfits chosen hchosen), loadedBy_toInt (hfits other hother)] at hle
  have hchosenOwn := hcounted chosen hchosen
  have hotherOwn := hcounted other hother
  rw [loadedBy_name]
  simp only [load]
  omega

theorem planPicks_spreads_of_fits {working : List NodeCandidate} {own : String → Nat}
    {start slots : Nat} (hnodup : (working.map NodeCandidate.name).Nodup)
    (hcounted : ∀ candidate ∈ working, candidate.ownReplicas.toInt + start = own candidate.name)
    (hfits : ∀ before pick after,
      planPicks strategy horizonSecs slots working = before ++ pick :: after →
        ∀ candidate ∈ working,
          candidate.ownReplicas.toInt + before.count candidate.name < 2 ^ 31) :
    Spreads (working.map NodeCandidate.name).toFinset own
      (planPicks strategy horizonSecs slots working) := by
  intro before pick after hsplit
  have hpick : pick ∈ planPicks strategy horizonSecs slots working := by simp [hsplit]
  obtain ⟨best, hbest, rfl⟩ := planPicks_split hnodup hsplit
  refine ⟨List.mem_toFinset.mpr (planPicks_mem hpick), fun other hother => ?_⟩
  obtain ⟨candidate, hcandidate, rfl⟩ := List.mem_map.mp (List.mem_toFinset.mp hother)
  exact selected_least_of_fits hcounted (hfits before _ after hsplit) hbest hcandidate

/-- The replicas each candidate counts, exactly and with room for a batch. -/
structure CountsOwn (working : List NodeCandidate) (own : String → Nat) (slots : Nat) : Prop where
  nodup : (working.map NodeCandidate.name).Nodup
  counted : ∀ candidate ∈ working, candidate.ownReplicas = Int32.ofNat (own candidate.name)
  small : ∀ candidate ∈ working, own candidate.name + slots < 2 ^ 31

/-- The node the strategy prefers of two that carry the same number of the
fleet's replicas. -/
def tieWinner (strategy : PlacementStrategy) (horizonSecs : Option Int)
    (working : List NodeCandidate) (own : String → Nat) (first second : String) (level : Nat) :
    Option String :=
  (selectNodeWithStrategy ((working.filter fun candidate =>
      candidate.name = first ∨ candidate.name = second).map fun candidate =>
        candidate.loadedBy (level - own candidate.name)) strategy horizonSecs).map
    NodeCandidate.name

/-- Whether the strategy prefers the second of two nodes level with each other. -/
def yieldsTie (strategy : PlacementStrategy) (horizonSecs : Option Int)
    (working : List NodeCandidate) (own : String → Nat) (place : String) (level : Nat)
    (other : String) : Bool :=
  tieWinner strategy horizonSecs working own place other level = some other

theorem tieWinner_of_selected {working : List NodeCandidate} {own : String → Nat}
    {picks : List String} {best : NodeCandidate}
    (hbest : selectNodeWithStrategy (working.map fun candidate =>
      candidate.loadedBy (picks.count candidate.name)) strategy horizonSecs = some best)
    {first second : String} (htie : load own picks second = load own picks first)
    (hpair : best.name = first ∨ best.name = second) :
    tieWinner strategy horizonSecs working own first second (load own picks first) =
      some best.name := by
  have hselected := selectNodeWithStrategy_filter
    (fun candidate => decide (candidate.name = first ∨ candidate.name = second)) hbest
    (by simpa using hpair)
  rw [List.filter_map] at hselected
  have hloads : ((working.filter fun candidate =>
      candidate.name = first ∨ candidate.name = second).map fun candidate =>
        candidate.loadedBy (load own picks first - own candidate.name)) =
      (working.filter fun candidate =>
        candidate.name = first ∨ candidate.name = second).map fun candidate =>
          candidate.loadedBy (picks.count candidate.name) := by
    refine List.map_congr_left fun candidate hmem => ?_
    have hname : candidate.name = first ∨ candidate.name = second := by
      simpa using (List.mem_filter.mp hmem).2
    rcases hname with hname | hname
    · simp [load, hname]
    · rw [← htie]
      simp [load, hname]
  rw [tieWinner, hloads]
  simp only [Function.comp_def, loadedBy_name] at hselected
  rw [hselected]
  rfl

theorem planPicks_settlesTies {working : List NodeCandidate} {own : String → Nat} {slots : Nat}
    (hnodup : (working.map NodeCandidate.name).Nodup) (place : String) :
    SettlesTies (working.map NodeCandidate.name).toFinset own
      (planPicks strategy horizonSecs slots working) place
      (yieldsTie strategy horizonSecs working own place) := by
  intro before pick after hsplit other _ hne htie
  obtain ⟨best, hbest, rfl⟩ := planPicks_split hnodup hsplit
  have hwinner := @tieWinner_of_selected strategy horizonSecs working own before best hbest
    place other htie
  constructor
  · rintro rfl
    rw [yieldsTie, hwinner (.inl rfl)]
    simpa using Ne.symm hne
  · rintro rfl
    rw [yieldsTie, hwinner (.inr rfl)]
    simp

namespace CountsOwn

variable {working : List NodeCandidate} {own : String → Nat} {slots : Nat}

theorem own_toInt (hcounts : CountsOwn working own slots) {candidate : NodeCandidate}
    (hmem : candidate ∈ working) : candidate.ownReplicas.toInt = own candidate.name := by
  have hsmall := hcounts.small candidate hmem
  rw [hcounts.counted candidate hmem, Int32.toInt_ofNat_of_lt (by omega)]

theorem fits (hcounts : CountsOwn working own slots) {candidate : NodeCandidate}
    (hmem : candidate ∈ working) {placed : Nat} (hplaced : placed ≤ slots) :
    candidate.ownReplicas.toInt + placed < 2 ^ 31 := by
  have hsmall := hcounts.small candidate hmem
  rw [hcounts.own_toInt hmem]
  omega

theorem loadedBy_toInt (hcounts : CountsOwn working own slots) {candidate : NodeCandidate}
    (hmem : candidate ∈ working) {placed : Nat} (hplaced : placed ≤ slots) :
    (candidate.loadedBy placed).ownReplicas.toInt = own candidate.name + placed := by
  rw [VllmColdstartOperator.loadedBy_toInt (hcounts.fits hmem hplaced), hcounts.own_toInt hmem]

theorem selected_least (hcounts : CountsOwn working own slots) {picks : List String}
    (hpicks : picks.length ≤ slots) {best : NodeCandidate}
    (hbest : selectNodeWithStrategy (working.map fun candidate =>
      candidate.loadedBy (picks.count candidate.name)) strategy horizonSecs = some best)
    {other : NodeCandidate} (hother : other ∈ working) :
    load own picks best.name ≤ load own picks other.name := by
  refine @selected_least_of_fits _ _ _ _ 0 (fun candidate hmem => ?_) picks
    (fun candidate hmem => ?_) best hbest other hother
  · rw [hcounts.own_toInt hmem]
    exact Int.add_zero _
  · exact hcounts.fits hmem (List.count_le_length.trans hpicks)

/-- A node is selected when every other carries more, or as much and loses the tie. -/
theorem selectAfter_eq_iff (hcounts : CountsOwn working own slots)
    (hsupported : strategy.isSupported = true) {picks : List String}
    (hpicks : picks.length ≤ slots) {place : String}
    (hplace : place ∈ working.map NodeCandidate.name) :
    selectAfter strategy horizonSecs working picks = some place ↔
      ∀ other ∈ working.map NodeCandidate.name, other ≠ place →
        load own picks place < load own picks other ∨
          (load own picks place = load own picks other ∧
            yieldsTie strategy horizonSecs working own place (load own picks place) other =
              false) := by
  have hne : (working.map fun candidate =>
      candidate.loadedBy (picks.count candidate.name)) ≠ [] := by
    obtain ⟨candidate, hmem, -⟩ := List.mem_map.mp hplace
    simpa using List.ne_nil_of_mem hmem
  obtain ⟨best, hbest⟩ : ∃ best, selectNodeWithStrategy (working.map fun candidate =>
      candidate.loadedBy (picks.count candidate.name)) strategy horizonSecs = some best :=
    selectNodeWithStrategy_isSome hsupported hne
  rw [selectAfter, hbest, Option.map_some, Option.some.injEq]
  constructor
  · rintro rfl name hname hother
    obtain ⟨candidate, hmem, rfl⟩ := List.mem_map.mp hname
    rcases Nat.lt_or_eq_of_le (hcounts.selected_least hpicks hbest hmem) with hless | htie
    · exact .inl hless
    · refine .inr ⟨htie, ?_⟩
      rw [yieldsTie, tieWinner_of_selected hbest htie.symm (.inl rfl)]
      simpa using Ne.symm hother
  · intro hfirst
    by_contra hother
    obtain ⟨chosen, hchosen, rfl⟩ := List.mem_map.mp (selectNodeWithStrategy_mem hbest)
    obtain ⟨candidate, hmem, rfl⟩ := List.mem_map.mp hplace
    have hleast := hcounts.selected_least hpicks hbest hmem
    rw [loadedBy_name] at hleast hother
    rcases hfirst chosen.name (List.mem_map_of_mem hchosen) hother with hless | ⟨htie, hwins⟩
    · omega
    · rw [yieldsTie, tieWinner_of_selected hbest htie.symm (.inr (loadedBy_name _ _)),
        loadedBy_name] at hwins
      simp at hwins

theorem selectAfter_elsewhere (hcounts : CountsOwn working own slots) {picks : List String}
    {place chosen : String} {extra : Nat} (hroom : extra + picks.length ≤ slots)
    (hchosen : selectAfter strategy horizonSecs working picks = some chosen)
    (hne : chosen ≠ place) :
    selectAfter strategy horizonSecs working (List.replicate extra place ++ picks) =
      some chosen := by
  obtain ⟨best, hbest, rfl⟩ := Option.map_eq_some_iff.mp hchosen
  rcases Nat.eq_zero_or_pos extra with rfl | hpositive
  · exact hchosen
  have hothers : ((working.map fun candidate => candidate.loadedBy
        ((List.replicate extra place ++ picks).count candidate.name)).filter
        fun candidate => candidate.name ≠ place) =
      (working.map fun candidate => candidate.loadedBy (picks.count candidate.name)).filter
        fun candidate => candidate.name ≠ place := by
    rw [List.filter_map, List.filter_map]
    simp only [Function.comp_def, loadedBy_name]
    refine List.map_congr_left fun candidate hmem => ?_
    have hname : candidate.name ≠ place := by simpa using (List.mem_filter.mp hmem).2
    rw [List.count_append, List.count_replicate, if_neg (by simpa using hname.symm), Nat.zero_add]
  have hfiltered := selectNodeWithStrategy_filter (fun candidate => decide (candidate.name ≠ place))
    hbest (by simpa using hne)
  rw [← hothers] at hfiltered
  rw [selectAfter, selectNodeWithStrategy_of_filter _ hfiltered, Option.map_some]
  intro other hother hdropped
  obtain ⟨candidate, hcandidate, rfl⟩ := List.mem_map.mp hother
  have hname : candidate.name = place := by simpa using hdropped
  have hle := selectNodeWithStrategy_ownReplicas_le hbest (List.mem_map_of_mem hcandidate)
  have hcount := @List.count_le_length _ _ candidate.name picks
  rw [hcounts.loadedBy_toInt hcandidate (by omega)] at hle
  rw [List.count_append, hname, List.count_replicate_self,
    hcounts.loadedBy_toInt hcandidate (by rw [← hname]; omega)]
  rw [hname] at hle ⊢
  omega

/-- Extra load on one node leaves the picks exactly when each pick of that node
would be made with the extra load as well. -/
theorem planPicks_extra_iff (hcounts : CountsOwn working own slots) {place : String}
    {extra left : Nat} {picks : List String} (hroom : extra + picks.length + left ≤ slots) :
    planPicks strategy horizonSecs left (working.map fun candidate => candidate.loadedBy
          ((List.replicate extra place ++ picks).count candidate.name)) =
        planPicks strategy horizonSecs left (working.map fun candidate =>
          candidate.loadedBy (picks.count candidate.name)) ↔
      ∀ before after, planPicks strategy horizonSecs left (working.map fun candidate =>
          candidate.loadedBy (picks.count candidate.name)) = before ++ place :: after →
        selectAfter strategy horizonSecs working
          (List.replicate extra place ++ (picks ++ before)) = some place := by
  induction left generalizing picks with
  | zero => simp [planPicks]
  | succ left ih =>
      rw [planPicks_succ_after hcounts.nodup, planPicks_succ_after hcounts.nodup]
      cases hchosen : selectAfter strategy horizonSecs working picks with
      | none =>
          rw [selectAfter_eq_none hchosen]
          simp
      | some chosen =>
          have hrest := @ih (picks ++ [chosen]) (by
            rw [List.length_append, List.length_singleton]
            omega)
          simp only [List.append_assoc, List.singleton_append] at hrest
          simp only [List.append_assoc]
          constructor
          · intro heq before after hsplit
            cases hextra : selectAfter strategy horizonSecs working
                (List.replicate extra place ++ picks) with
            | none => simp [hextra] at heq
            | some name =>
                rw [hextra] at heq
                obtain ⟨rfl, htail⟩ := List.cons.inj heq
                cases before with
                | nil =>
                    obtain ⟨rfl, -⟩ := List.cons.inj hsplit
                    rw [List.append_nil]
                    exact hextra
                | cons head before =>
                    obtain ⟨rfl, hafter⟩ := List.cons.inj hsplit
                    exact hrest.mp htail before after hafter
          · intro hall
            have hextra : selectAfter strategy horizonSecs working
                (List.replicate extra place ++ picks) = some chosen := by
              by_cases hplace : chosen = place
              · subst hplace
                have hfirst := hall [] _ rfl
                rwa [List.append_nil] at hfirst
              · exact hcounts.selectAfter_elsewhere (by omega) hchosen hplace
            rw [hextra]
            refine congrArg (List.cons chosen) (hrest.mpr fun before after htail => ?_)
            exact hall (chosen :: before) after (by rw [htail]; rfl)

theorem first_least (hcounts : CountsOwn working own slots) {best : NodeCandidate}
    (hbest : selectNodeWithStrategy working strategy horizonSecs = some best)
    {other : NodeCandidate} (hother : other ∈ working) : own best.name ≤ own other.name := by
  have hleast := @selected_least strategy horizonSecs working own slots hcounts [] (by simp) best
  simp only [List.count_nil, loadedBy_zero, List.map_id', load_nil] at hleast
  exact hleast hbest hother

theorem planPicks_spreads (hcounts : CountsOwn working own slots) {left : Nat}
    (hleft : left ≤ slots) :
    Spreads (working.map NodeCandidate.name).toFinset own
      (planPicks strategy horizonSecs left working) := by
  refine @planPicks_spreads_of_fits _ _ _ _ 0 _ hcounts.nodup (fun candidate hmem => ?_)
    fun before pick after hsplit candidate hmem => ?_
  · rw [hcounts.own_toInt hmem]
    exact Int.add_zero _
  · have hlength := @planPicks_length_le strategy horizonSecs left working
    rw [hsplit, List.length_append] at hlength
    have hcount : before.count candidate.name ≤ before.length := List.count_le_length
    exact hcounts.fits hmem (by omega)

end CountsOwn

end VllmColdstartOperator
