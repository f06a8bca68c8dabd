import VllmColdstartOperator.FleetController.Positions
import VllmColdstartOperator.Guarantees.Batch

/-!
# A reconcile that finds its first slots written

The input of such a reconcile differs from that of the first one in the pins
alone.  Its budget is the same, so it moves as many slots again, and its
candidates carry the load of what was written.  It reaches the pins of the first
one when it has no displaced slot left beyond the budget, and the node of the
moves stays the choice for whatever was to go there.
-/

namespace VllmColdstartOperator

open Foundation Std

theorem filterMap_eq_iff {α β : Type} {left right : α → Option β} {values : List α}
    (hleft : ∀ value ∈ values, (left value).isSome = true)
    (hright : ∀ value ∈ values, (right value).isSome = true) :
    values.filterMap left = values.filterMap right ↔
      ∀ value ∈ values, left value = right value := by
  induction values with
  | nil => simp
  | cons value values ih =>
      rw [List.forall_mem_cons] at hleft hright
      obtain ⟨first, hfirst⟩ := Option.isSome_iff_exists.mp hleft.1
      obtain ⟨second, hsecond⟩ := Option.isSome_iff_exists.mp hright.1
      rw [List.filterMap_cons_some hfirst, List.filterMap_cons_some hsecond, List.cons.injEq,
        ih hleft.2 hright.2, List.forall_mem_cons, hfirst, hsecond, Option.some.injEq]

namespace ReconcileInput

section Definitions

variable (input : ReconcileInput)

def selectAfter (picks : List String) : Option String :=
  VllmColdstartOperator.selectAfter input.strategy input.horizonSecs input.healthyCandidates picks

/-- Whether the strategy prefers the second of two healthy nodes level with each
other. -/
def yieldsTo (node : String) : Nat → String → Bool :=
  yieldsTie input.strategy input.horizonSecs input.healthyCandidates input.existingPins node

/-- What a healthy node carries once that many slots are planned. -/
def carriedAfter (node : String) (planned : Nat) : Nat :=
  loadAfter input.healthyNames input.existingPins (input.yieldsTo node) node planned

/-- With that many slots planned, every other node carries more than this one and
its moves, or as much and loses the tie. -/
def StaysFirst (best : String) (moves planned : Nat) : Prop :=
  ∀ other ∈ input.healthyNames, other ≠ best →
    input.carriedAfter best planned + moves < input.carriedAfter other planned ∨
      (input.carriedAfter best planned + moves = input.carriedAfter other planned ∧
        input.yieldsTo best (input.carriedAfter best planned + moves) other = false)

/-- What a cut after some of the calls needs, `best` being the node of the moves: no
displaced slot beyond the budget, and the node ahead of the others with the moves
made, for a move left and for each slot left that is planned on it. -/
def RetryAgrees (made : Nat) : Prop :=
  ∀ best, selectNodeWithStrategy input.healthyCandidates input.strategy input.horizonSecs =
      some best →
    let moves := input.movesBelow (min made input.desired)
    let planned := input.missingBelow (min made input.desired)
    (moves = 0 ∨ input.displacedBelow input.desired ≤ input.budget) ∧
    (moves < input.movesBelow input.desired → input.StaysFirst best.name moves planned) ∧
    ∀ turn, planned ≤ turn → turn < input.missing.length →
      room input.healthyNames input.existingPins best.name (input.yieldsTo best.name)
        (input.carriedAfter best.name turn) = turn →
      input.StaysFirst best.name moves turn

end Definitions

theorem selectAfter_nil {input : ReconcileInput} : input.selectAfter [] = input.target :=
  VllmColdstartOperator.selectAfter_nil _

/-! ## What the nodes carry -/

section Carried

variable {input : ReconcileInput} {moves : Nat} {best : String}
  (hsupported : input.strategy.isSupported = true)
  (hcounts : CountsOwn input.healthyCandidates input.existingPins (moves + input.missing.length))
  (hplace : best ∈ input.healthyCandidates.map NodeCandidate.name)

include hsupported

theorem fresh_take_eq {planned : Nat} (hplanned : planned ≤ input.missing.length) :
    input.fresh.take planned =
      planPicks input.strategy input.horizonSecs planned input.healthyCandidates := by
  rw [fresh_eq]
  exact planPicks_take hsupported hplanned _

theorem fresh_length_of_place {node : String}
    (hnode : node ∈ input.healthyCandidates.map NodeCandidate.name) :
    input.fresh.length = input.missing.length := by
  obtain ⟨candidate, hmem, -⟩ := List.mem_map.mp hnode
  exact fresh_length hsupported (List.ne_nil_of_mem hmem)

include hcounts

theorem carriedAfter_eq {node : String}
    (hnode : node ∈ input.healthyCandidates.map NodeCandidate.name) {planned : Nat}
    (hplanned : planned ≤ input.missing.length) :
    input.carriedAfter node planned =
      load input.existingPins (input.fresh.take planned) node := by
  obtain ⟨candidate, hmem, -⟩ := List.mem_map.mp hnode
  have hlength := @planPicks_length input.strategy input.horizonSecs hsupported planned _
    (List.ne_nil_of_mem hmem)
  have hspreads := @CountsOwn.planPicks_spreads input.strategy input.horizonSecs _ _ _ hcounts
    planned (by omega)
  have hcarried := loadAfter_eq (List.mem_toFinset.mpr hnode) hspreads
    (planPicks_settlesTies hcounts.nodup node)
  rw [hlength] at hcarried
  rw [fresh_take_eq hsupported hplanned]
  exact hcarried

include hplace

theorem selectAfter_iff_staysFirst {planned : Nat} (hplanned : planned ≤ input.missing.length) :
    input.selectAfter (List.replicate moves best ++ input.fresh.take planned) = some best ↔
      input.StaysFirst best moves planned := by
  have hlength : (List.replicate moves best ++ input.fresh.take planned).length ≤
      moves + input.missing.length := by
    rw [List.length_append, List.length_replicate, List.length_take]
    omega
  have hself : load input.existingPins (List.replicate moves best ++ input.fresh.take planned)
      best = input.carriedAfter best planned + moves := by
    rw [carriedAfter_eq hsupported hcounts hplace hplanned, load, load, List.count_append,
      List.count_replicate_self]
    omega
  rw [selectAfter, hcounts.selectAfter_eq_iff hsupported hlength hplace, hself, StaysFirst]
  simp only [healthyNames, List.mem_toFinset]
  refine forall₃_congr fun other hother hne => ?_
  have hothers : load input.existingPins
      (List.replicate moves best ++ input.fresh.take planned) other =
        input.carriedAfter other planned := by
    rw [carriedAfter_eq hsupported hcounts hother hplanned, load, load, List.count_append,
      List.count_replicate, if_neg (by simpa using Ne.symm hne), Nat.zero_add]
  rw [hothers]
  rfl

/-- A slot goes to the node when as many slots fit below the node's load. -/
theorem room_carriedAfter_iff {before after : List String} {pick : String}
    (hsplit : input.fresh = before ++ pick :: after) :
    room input.healthyNames input.existingPins best (input.yieldsTo best)
      (input.carriedAfter best before.length) = before.length ↔ pick = best := by
  have hspreads : Spreads input.healthyNames input.existingPins input.fresh := by
    rw [fresh_eq]
    exact hcounts.planPicks_spreads (by omega)
  have hties : SettlesTies input.healthyNames input.existingPins input.fresh best
      (input.yieldsTo best) := by
    rw [fresh_eq]
    exact planPicks_settlesTies hcounts.nodup best
  have hfresh := fresh_length_of_place hsupported hplace
  have hlength := congrArg List.length hsplit
  rw [List.length_append, List.length_cons] at hlength
  rw [carriedAfter_eq hsupported hcounts hplace (by omega), hsplit,
    List.take_append_of_le_length le_rfl, List.take_length]
  rw [hsplit] at hspreads hties
  exact room_loadAfter_iff (List.mem_toFinset.mpr hplace) hspreads hties

theorem selectAfter_split_iff {planned : Nat} :
    (∀ before after, input.fresh = before ++ best :: after → planned ≤ before.length →
        input.selectAfter (List.replicate moves best ++ before) = some best) ↔
      ∀ turn, planned ≤ turn → turn < input.missing.length →
        room input.healthyNames input.existingPins best (input.yieldsTo best)
          (input.carriedAfter best turn) = turn →
        input.StaysFirst best moves turn := by
  have hfresh := fresh_length_of_place hsupported hplace
  constructor
  · intro hall turn hlate hturn hroom
    rw [← selectAfter_iff_staysFirst hsupported hcounts hplace hturn.le]
    have hlt : turn < input.fresh.length := by omega
    have hsplit : input.fresh =
        input.fresh.take turn ++ input.fresh[turn] :: input.fresh.drop (turn + 1) := by
      rw [← List.drop_eq_getElem_cons hlt, List.take_append_drop]
    have hlength : (input.fresh.take turn).length = turn := by
      rw [List.length_take]
      omega
    have hpick := room_carriedAfter_iff hsupported hcounts hplace hsplit
    rw [hlength] at hpick
    rw [hpick.mp hroom] at hsplit
    exact hall _ _ hsplit (by rw [hlength]; exact hlate)
  · intro hall before after hsplit hlate
    have hlength := congrArg List.length hsplit
    rw [List.length_append, List.length_cons] at hlength
    have hturn : before.length < input.missing.length := by omega
    have htake : input.fresh.take before.length = before := by
      rw [hsplit, List.take_append_of_le_length le_rfl, List.take_length]
    have hfirst := hall before.length hlate hturn
      ((room_carriedAfter_iff hsupported hcounts hplace hsplit).mpr rfl)
    rwa [← selectAfter_iff_staysFirst hsupported hcounts hplace hturn.le, htake] at hfirst

end Carried

/-! ## What the retry reads -/

def isEligible (input : ReconcileInput) (node : String) : Bool :=
  decide (node ∉ input.displaced) &&
    hasCapacityFor ((input.snapshot.allocatable input.gpuRequest)[node]?).join input.gpuRequest

theorem healthyCandidates_eq (input : ReconcileInput) : input.healthyCandidates =
    (input.poolCandidates.filter fun candidate => input.isEligible candidate.name).map
      (foldOwnLoad input.ownCounts input.derivedWarmth) := by
  rw [healthyCandidates, candidates, List.filter_filter, List.filter_map]
  refine congrArg (List.map _) (List.filter_congr fun candidate _ => ?_)
  exact Bool.and_comm _ _

theorem healthyCandidates_names (input : ReconcileInput) :
    input.healthyCandidates.map NodeCandidate.name =
      (input.poolCandidates.filter fun candidate => input.isEligible candidate.name).map
        NodeCandidate.name := by
  rw [healthyCandidates_eq, List.map_map]
  rfl

/-- The retry of a reconcile that wrote some of its slots: the same cluster and
status, with the pins that were written. -/
structure RetryOf (first retry : ReconcileInput) (made : Nat) : Prop where
  supported : first.strategy.isSupported = true
  strategy : retry.strategy = first.strategy
  horizonSecs : retry.horizonSecs = first.horizonSecs
  desired : retry.desired = first.desired
  displaced : retry.displaced = first.displaced
  budget : retry.budget = first.budget
  derivedWarmth : retry.derivedWarmth = first.derivedWarmth
  eligible : (retry.poolCandidates.filter fun candidate => retry.isEligible candidate.name) =
    first.poolCandidates.filter fun candidate => first.isEligible candidate.name
  untouched : first.healthyCandidates = [] → ∀ index < first.desired,
    retry.current[index]? = first.current[index]?
  written : first.healthyCandidates ≠ [] → ∀ index < first.desired,
    retry.current[index]? = if index < made then first.pin index else first.current[index]?
  surplus : first.healthyCandidates ≠ [] → made ≤ first.desired →
    ∀ index, ¬ index < first.desired → retry.current[index]? = first.current[index]?

namespace RetryOf

variable {first retry : ReconcileInput} {made : Nat} {best : String}
  (hretry : RetryOf first retry made)

include hretry

theorem names : retry.healthyCandidates.map NodeCandidate.name =
    first.healthyCandidates.map NodeCandidate.name := by
  rw [healthyCandidates_names, healthyCandidates_names, hretry.eligible]

theorem no_healthy_iff : retry.healthyCandidates = [] ↔ first.healthyCandidates = [] := by
  rw [← List.map_eq_nil_iff, hretry.names, List.map_eq_nil_iff]

theorem pins_agree_of_no_healthy (hnone : first.healthyCandidates = []) {index : Nat}
    (hrange : index < first.desired) : retry.pin index = first.pin index := by
  rw [pin_of_no_healthy (hretry.no_healthy_iff.mpr hnone), pin_of_no_healthy hnone,
    hretry.untouched hnone index hrange]

variable (hbest : first.target = some best)

include hbest

theorem healthy : retry.healthyCandidates ≠ [] :=
  hretry.no_healthy_iff.not.mpr (healthy_of_target hbest)

theorem retry_target : ∃ node, retry.target = some node :=
  target_isSome (hretry.strategy ▸ hretry.supported) (hretry.healthy hbest)

theorem current {index : Nat} (hrange : index < first.desired) :
    retry.current[index]? = if index < made then first.pin index else first.current[index]? :=
  hretry.written (healthy_of_target hbest) index hrange

theorem onDisplaced_iff {index : Nat} (hrange : index < first.desired) :
    retry.onDisplaced index = true ↔
      first.onDisplaced index = true ∧ ¬ (index < made ∧ index ∈ first.movedSlots) := by
  rw [ReconcileInput.onDisplaced_iff, ReconcileInput.onDisplaced_iff, hretry.displaced,
    hretry.current hbest hrange]
  by_cases hmade : index < made
  · rw [if_pos hmade]
    by_cases hmoved : index ∈ first.movedSlots
    · rw [pin_of_moved hmoved, hbest]
      have hsafe := target_not_displaced hbest
      simp [hmade, hmoved, hsafe]
    · simp only [hmoved, and_false, not_false_eq_true, and_true]
      constructor
      · rintro ⟨node, hnode, hdisplaced⟩
        refine ⟨node, ?_, hdisplaced⟩
        by_contra hchanged
        exact pin_not_displaced hnode hchanged hdisplaced
      · rintro ⟨node, hnode, hdisplaced⟩
        exact ⟨node, pin_of_kept hmoved hnode, hdisplaced⟩
  · simp [hmade]

theorem displacedBelow_add {bound : Nat} (hbound : bound ≤ first.desired) :
    retry.displacedBelow bound + first.movesBelow (min bound made) =
      first.displacedBelow bound := by
  rw [movesBelow]
  induction bound with
  | zero => simp [displacedBelow]
  | succ bound ih =>
      have hrest := ih (Nat.le_of_succ_le hbound)
      have hslot := hretry.onDisplaced_iff hbest hbound
      rw [mem_movedSlots_of_target hbest] at hslot
      rw [displacedBelow_succ, displacedBelow_succ]
      by_cases hmade : bound < made
      · rw [Nat.min_eq_left (Nat.le_of_lt hmade)] at hrest
        rw [Nat.min_eq_left hmade, displacedBelow_succ]
        by_cases hdisplaced : first.onDisplaced bound = true
        · by_cases hfew : first.displacedBelow bound < first.budget
          · rw [if_neg (by simp [hslot, hmade, hdisplaced, hfew]), if_pos hdisplaced]
            omega
          · rw [if_pos (by simp [hslot, hdisplaced, hfew]), if_pos hdisplaced]
            omega
        · rw [if_neg (by simp [hslot, hdisplaced]), if_neg hdisplaced]
          omega
      · have hstill : min (bound + 1) made = min bound made := by omega
        have hsame : retry.onDisplaced bound = true ↔ first.onDisplaced bound = true :=
          hslot.trans (by simp [hmade])
        rw [hstill, if_congr hsame rfl rfl]
        omega

theorem mem_movedSlots_retry {index : Nat} (hrange : index < first.desired) :
    index ∈ retry.movedSlots ↔
      (first.onDisplaced index = true ∧ ¬ (index < made ∧ index ∈ first.movedSlots)) ∧
        first.displacedBelow index < first.budget + first.movesBelow (min index made) := by
  obtain ⟨node, hnode⟩ := hretry.retry_target hbest
  have hadd := hretry.displacedBelow_add hbest (Nat.le_of_lt hrange)
  rw [mem_movedSlots_of_target hnode, hretry.onDisplaced_iff hbest hrange, hretry.budget]
  refine and_congr_right fun _ => ?_
  omega

theorem movedSlots_retry_of_budget (hbudget : first.movesBelow (min made first.desired) = 0 ∨
      first.displacedBelow first.desired ≤ first.budget)
    {index : Nat} (hrange : index < first.desired) (hmoved : index ∈ retry.movedSlots) :
    made ≤ index ∧ index ∈ first.movedSlots := by
  obtain ⟨⟨hdisplaced, hunwritten⟩, hfew⟩ := (hretry.mem_movedSlots_retry hbest hrange).mp hmoved
  have hbelow : first.displacedBelow index < first.budget := by
    rcases hbudget with hzero | hfits
    · have hmono := @displacedBelow_mono first (min index made) (min made first.desired) (by omega)
      rw [movesBelow] at hzero hfew
      omega
    · have hnext := @displacedBelow_mono first (index + 1) first.desired hrange
      rw [displacedBelow_succ, if_pos hdisplaced] at hnext
      omega
  have hfirst := (mem_movedSlots_of_target hbest index).mpr ⟨hdisplaced, hbelow⟩
  exact ⟨Nat.not_lt.mp fun hlt => hunwritten ⟨hlt, hfirst⟩, hfirst⟩

omit hretry in
theorem moved_left_iff :
    first.movesBelow (min made first.desired) < first.movesBelow first.desired ↔
      ∃ index < first.desired, made ≤ index ∧ index ∈ first.movedSlots := by
  simp only [mem_movedSlots_of_target hbest, movesBelow]
  constructor
  · intro hleft
    obtain ⟨index, hrange, hdisplaced, hcount⟩ := exists_count_eq
      (show first.displacedBelow (min made first.desired) <
        Nat.count (fun index => first.onDisplaced index = true) first.desired by
          change _ < first.displacedBelow first.desired
          omega)
    change first.displacedBelow index = _ at hcount
    refine ⟨index, hrange, ?_, hdisplaced, by omega⟩
    by_contra hlt
    have hnext := @displacedBelow_mono first (index + 1) (min made first.desired) (by omega)
    rw [displacedBelow_succ, if_pos hdisplaced] at hnext
    omega
  · rintro ⟨index, hrange, hmade, hdisplaced, hfew⟩
    have hbefore := @displacedBelow_mono first (min made first.desired) index (by omega)
    have hnext := @displacedBelow_mono first (index + 1) first.desired hrange
    rw [displacedBelow_succ, if_pos hdisplaced] at hnext
    omega

/-- The pins agree when the retry moves no slot more, to the same node, and plans
the missing slots alike. -/
theorem pins_agree_iff :
    (∀ index < first.desired, retry.pin index = first.pin index) ↔
      (first.movesBelow (min made first.desired) = 0 ∨
        first.displacedBelow first.desired ≤ first.budget) ∧
      (first.movesBelow (min made first.desired) < first.movesBelow first.desired →
        retry.target = some best) ∧
      ∀ index ∈ retry.missing, retry.pin index = first.pin index := by
  constructor
  · intro hagree
    refine ⟨?_, ?_, fun index hmissing => hagree index ?_⟩
    · by_contra hbroken
      push Not at hbroken
      obtain ⟨hmade, hmany⟩ := hbroken
      obtain ⟨index, hrange, hdisplaced, hcount⟩ := exists_count_eq hmany
      change first.displacedBelow index = _ at hcount
      have hkept : index ∉ first.movedSlots := by
        rw [mem_movedSlots_of_target hbest]
        omega
      have hmoved : index ∈ retry.movedSlots := by
        rw [hretry.mem_movedSlots_retry hbest hrange]
        refine ⟨⟨hdisplaced, fun h => hkept h.2⟩, ?_⟩
        have hpositive : first.movesBelow (min index made) ≠ 0 := by
          rcases Nat.lt_or_ge index made with hbefore | hafter
          · rw [Nat.min_eq_left (Nat.le_of_lt hbefore), movesBelow]
            rw [movesBelow] at hmade
            omega
          · rwa [show min index made = min made first.desired by omega]
        omega
      obtain ⟨node, hnode, hbad⟩ := (ReconcileInput.onDisplaced_iff index).mp hdisplaced
      have hsame := hagree index hrange
      rw [pin_of_moved hmoved, pin_of_kept hkept hnode] at hsame
      exact target_not_displaced hsame (hretry.displaced ▸ hbad)
    · intro hleft
      obtain ⟨index, hrange, hmade, hmoved⟩ := (moved_left_iff hbest).mp hleft
      obtain ⟨⟨node, hnode, hbad⟩, -⟩ := of_mem_movedSlots hmoved
      have hcurrent := hretry.current hbest hrange
      rw [if_neg (Nat.not_lt.mpr hmade), hnode] at hcurrent
      have hsame := hagree index hrange
      rw [pin_of_moved hmoved, hbest] at hsame
      have hchanged : retry.pin index ≠ some node := by
        rw [hsame]
        rintro heq
        exact target_not_displaced hbest (Option.some.inj heq ▸ hbad)
      rw [← pin_of_moved (moved_of_repinned hcurrent hchanged).1, hsame]
    · exact hretry.desired ▸ ((mem_missing index).mp hmissing).1
  · rintro ⟨hbudget, htarget, hplanned⟩ index hrange
    by_cases hmoved : index ∈ retry.movedSlots
    · obtain ⟨hmade, hfirst⟩ := hretry.movedSlots_retry_of_budget hbest hbudget hrange hmoved
      rw [pin_of_moved hmoved, pin_of_moved hfirst, hbest]
      exact htarget ((moved_left_iff hbest).mpr ⟨index, hrange, hmade, hfirst⟩)
    · cases hcurrent : retry.current[index]? with
      | none => exact hplanned index ((mem_missing index).mpr ⟨hretry.desired ▸ hrange, hcurrent⟩)
      | some node =>
          rw [pin_of_kept hmoved hcurrent]
          rw [hretry.current hbest hrange] at hcurrent
          split at hcurrent
          · exact hcurrent.symm
          · next hmade =>
              refine (pin_of_kept (fun hfirst => hmoved ?_) hcurrent).symm
              rw [hretry.mem_movedSlots_retry hbest hrange]
              obtain ⟨hdisplaced, hfew⟩ := (mem_movedSlots_of_target hbest index).mp hfirst
              exact ⟨⟨hdisplaced, fun h => hmade h.1⟩, by omega⟩

/-! ## What the retry ranks -/

section Counted

variable (hmade : made ≤ first.desired)

include hmade

theorem count_current {node : String} (hnode : node ∉ first.displaced) (bound : Nat) :
    Nat.count (fun index => retry.current[index]? = some node) bound =
      Nat.count (fun index => first.current[index]? = some node) bound +
        Nat.count (fun index => index ∈ first.movedSlots ∧ best = node) (min bound made) +
        Nat.count (fun index => first.current[index]? = none ∧ first.pin index = some node)
          (min bound made) := by
  induction bound with
  | zero => simp
  | succ bound ih =>
      rw [Nat.count_succ, Nat.count_succ, ih]
      rcases Nat.lt_or_ge bound made with hbefore | hafter
      · rw [Nat.min_eq_left (Nat.le_of_lt hbefore), Nat.min_eq_left hbefore, Nat.count_succ,
          Nat.count_succ, hretry.current hbest (by omega), if_pos hbefore]
        by_cases hmoved : bound ∈ first.movedSlots
        · obtain ⟨⟨held, hheld, hbad⟩, -⟩ := of_mem_movedSlots hmoved
          have hne : held ≠ node := fun heq => hnode (heq ▸ hbad)
          rw [pin_of_moved hmoved, hbest, hheld]
          simp only [Option.some.injEq, hne, hmoved, true_and, if_false, reduceCtorEq, false_and]
          omega
        · cases hcurrent : first.current[bound]? with
          | some held =>
              rw [pin_of_kept hmoved hcurrent]
              simp only [hmoved, reduceCtorEq, false_and, if_false]
              omega
          | none =>
              simp only [hmoved, reduceCtorEq, false_and, true_and, if_false]
              omega
      · have hsame : retry.current[bound]? = first.current[bound]? := by
          by_cases hrange : bound < first.desired
          · rw [hretry.current hbest hrange, if_neg (Nat.not_lt.mpr hafter)]
          · exact hretry.surplus (healthy_of_target hbest) hmade bound hrange
        rw [hsame, Nat.min_eq_right hafter, Nat.min_eq_right (Nat.le_succ_of_le hafter)]
        omega

theorem plannedCount (node : String) :
    (first.fresh.take (first.missingBelow made)).count node =
      Nat.count (fun index => first.current[index]? = none ∧ first.pin index = some node) made := by
  rw [(fresh_take hretry.supported (healthy_of_target hbest) hmade).1, List.count_eq_countP,
    List.countP_filterMap, List.countP_filter, Nat.count]
  refine List.countP_congr fun index _ => ?_
  cases first.pin index with
  | none => simp
  | some held =>
      simp
      tauto

variable (hslots : ∀ (index : Nat) (node : String),
  first.current[index]? = some node → index < 2 ^ 31 - 1)

include hslots

omit hbest in
theorem slots_retry (hhealthy : first.healthyCandidates ≠ []) (index : Nat) (node : String)
    (hcurrent : retry.current[index]? = some node) : index < 2 ^ 31 - 1 := by
  by_cases hrange : index < first.desired
  · have hbound := @desired_lt first
    omega
  · rw [hretry.surplus hhealthy hmade index hrange] at hcurrent
    exact hslots index node hcurrent

theorem existingPins_eq {node : String} (hnode : node ∉ first.displaced) :
    retry.existingPins node = first.existingPins node +
      (List.replicate (first.movesBelow made) best ++
        first.fresh.take (first.missingBelow made)).count node := by
  have hlater := hretry.slots_retry hmade hslots (healthy_of_target hbest)
  have hbound : min (2 ^ 31 - 1) made = made := by
    have hlt := @desired_lt first
    omega
  have hmoves : Nat.count (fun index => index ∈ first.movedSlots ∧ best = node) made =
      (List.replicate (first.movesBelow made) best).count node := by
    rw [List.count_replicate]
    by_cases hsame : best = node
    · simp only [hsame, and_true, beq_self_eq_true, if_true]
      exact count_movedSlots hbest made
    · simp [hsame]
  rw [existingPins, existingPins, BTreeMap.count_values _ hlater, BTreeMap.count_values _ hslots,
    hretry.count_current hbest hmade hnode, hbound, List.count_append, hmoves,
    hretry.plannedCount hbest hmade, Nat.add_assoc]

theorem healthyCandidates_loaded : retry.healthyCandidates =
    first.healthyCandidates.map fun candidate => candidate.loadedBy
      ((List.replicate (first.movesBelow made) best ++
        first.fresh.take (first.missingBelow made)).count candidate.name) := by
  rw [healthyCandidates_eq retry, healthyCandidates_eq first, hretry.eligible,
    hretry.derivedWarmth, List.map_map]
  refine List.map_congr_left fun candidate hmem => ?_
  have hnode : candidate.name ∉ first.displaced := by
    have heligible := (List.mem_filter.mp hmem).2
    rw [isEligible, Bool.and_eq_true, decide_eq_true_eq] at heligible
    exact heligible.1
  have hcount := hretry.existingPins_eq hbest hmade hslots hnode
  have hsmall := existingPins_small
    (hretry.slots_retry hmade hslots (healthy_of_target hbest)) candidate.name
  have hroom := Nat.lt_of_le_of_lt (Nat.le_add_right _ _) hsmall
  rw [hcount] at hroom
  refine foldOwnLoad_loadedBy (ownPlacementsPerNode_lookup _ _) ?_ hroom
  exact (ownPlacementsPerNode_lookup _ _).trans (congrArg Int32.ofNat hcount)

omit hretry hbest hmade in
theorem countsOwn (hnodes : ∀ nodes, first.snapshot.nodes = some nodes →
      (nodes.map Node.name).Nodup) :
    CountsOwn first.healthyCandidates first.existingPins
      (first.movesBelow made + first.missing.length) := by
  have hcounts := healthy_countsOwn hnodes hslots
  refine ⟨hcounts.nodup, hcounts.counted, fun candidate hmem => ?_⟩
  have hsafe := (mem_healthyCandidates hmem).2
  have hsplit : first.existingPins candidate.name + first.displacedSlots.length ≤
      first.current.toList.length := by
    rw [existingPins, List.count_eq_countP, List.countP_map, displacedSlots,
      ← List.countP_eq_length_filter]
    induction first.current.toList with
    | nil => simp
    | cons slot slots ih =>
        rw [List.countP_cons, List.countP_cons, List.length_cons]
        by_cases hpinned : slot.2 = candidate.name
        · have hstays : slot.2 ∉ first.displaced := hpinned ▸ hsafe
          simp only [Function.comp_apply, hpinned, beq_self_eq_true, if_true,
            decide_eq_false (hpinned ▸ hstays), Bool.false_eq_true, if_false]
          omega
        · simp only [Function.comp_apply, beq_eq_false_iff_ne.mpr hpinned, Bool.false_eq_true,
            if_false]
          split <;> omega
  have hmoves : first.movesBelow made ≤ first.displacedSlots.length := by
    have hbelow : (first.displacedSlots.countP fun slot => slot.1 < made) =
        first.displacedBelow made :=
      BTreeMap.countP_below first.current (fun slot => decide (slot.2 ∈ first.displaced)) made
    have hle := @List.countP_le_length _ (fun slot => decide (slot.1 < made)) first.displacedSlots
    rw [movesBelow]
    omega
  have hlength := slots_length_lt hslots
  omega

omit hmade hslots in
theorem missing_retry :
    retry.missing = first.missing.filter fun index => made ≤ index := by
  rw [missing_eq_filter, missing_eq_filter, List.filter_filter, hretry.desired]
  refine List.filter_congr fun index hindex => ?_
  have hrange := List.mem_range.mp hindex
  rw [hretry.current hbest hrange]
  by_cases hbefore : index < made
  · obtain ⟨node, hnode⟩ := pin_isSome hretry.supported (healthy_of_target hbest) hrange
    simp [hbefore, hnode]
  · simp [hbefore, Nat.not_lt.mp hbefore]

omit hslots in
theorem missing_length :
    first.missingBelow made + retry.missing.length = first.missing.length := by
  have hfresh := fresh_length hretry.supported (healthy_of_target hbest)
  have htake := (fresh_take hretry.supported (healthy_of_target hbest) hmade).2
  have hall : ∀ index ∈ retry.missing, (first.pin index).isSome = true := by
    intro index hindex
    exact Option.isSome_iff_exists.mpr (pin_isSome hretry.supported (healthy_of_target hbest)
      (hretry.desired ▸ ((mem_missing index).mp hindex).1))
  have hdropped := congrArg List.length htake
  rw [← hretry.missing_retry hbest, List.length_filterMap_eq_countP,
    List.countP_eq_length.mpr hall, List.length_drop, hfresh] at hdropped
  have hle : first.missingBelow made ≤ first.missing.length := by
    rw [missing_eq_filter, ← List.countP_eq_length_filter]
    exact Nat.count_monotone _ hmade
  omega

/-- The missing slots are planned alike when the target is picked with the moves
counted wherever it was picked. -/
theorem planned_alike_iff (hnodes : ∀ nodes, first.snapshot.nodes = some nodes →
      (nodes.map Node.name).Nodup) :
    (∀ index ∈ retry.missing, retry.pin index = first.pin index) ↔
      ∀ before after, first.fresh = before ++ best :: after →
        first.missingBelow made ≤ before.length →
        first.selectAfter (List.replicate (first.movesBelow made) best ++ before) = some best := by
  have hcounts := @countsOwn first made hslots hnodes
  have hhealthy := healthy_of_target hbest
  have hlength := hretry.missing_length hbest hmade
  have hdone : (first.fresh.take (first.missingBelow made)).length = first.missingBelow made := by
    rw [List.length_take, fresh_length hretry.supported hhealthy]
    omega
  have hdrop : first.fresh.drop (first.missingBelow made) =
      planPicks first.strategy first.horizonSecs retry.missing.length
        (first.healthyCandidates.map fun candidate => candidate.loadedBy
          ((first.fresh.take (first.missingBelow made)).count candidate.name)) := by
    have hfirst := @planPicks_take first.strategy first.horizonSecs hretry.supported
      (first.missingBelow made) first.missing.length (by omega) first.healthyCandidates
    rw [← fresh_eq] at hfirst
    rw [hfirst, ← foldl_simulatePlacement hcounts.nodup, fresh_eq, ← hlength, planPicks_add]
    exact List.drop_left' (planPicks_length hretry.supported _ hhealthy)
  have hpicks : retry.fresh = planPicks first.strategy first.horizonSecs retry.missing.length
      (first.healthyCandidates.map fun candidate => candidate.loadedBy
        ((List.replicate (first.movesBelow made) best ++
          first.fresh.take (first.missingBelow made)).count candidate.name)) := by
    rw [fresh_eq, hretry.strategy, hretry.horizonSecs,
      hretry.healthyCandidates_loaded hbest hmade hslots]
  have hpins : (∀ index ∈ retry.missing, retry.pin index = first.pin index) ↔
      retry.fresh = first.fresh.drop (first.missingBelow made) := by
    rw [(fresh_take hretry.supported hhealthy hmade).2, ← hretry.missing_retry hbest,
      ← missing_filterMap_pin (hretry.strategy ▸ hretry.supported) (hretry.healthy hbest)]
    refine (filterMap_eq_iff (fun index hindex => ?_) fun index hindex => ?_).symm
    · exact Option.isSome_iff_exists.mpr (pin_isSome (hretry.strategy ▸ hretry.supported)
        (hretry.healthy hbest) ((mem_missing index).mp hindex).1)
    · exact Option.isSome_iff_exists.mpr (pin_isSome hretry.supported hhealthy
        (hretry.desired ▸ ((mem_missing index).mp hindex).1))
  rw [hpins, hpicks, hdrop, hcounts.planPicks_extra_iff (by rw [hdone]; omega), ← hdrop]
  constructor
  · intro hall before after hfresh hlate
    have hbefore : first.fresh.take (first.missingBelow made) ++
        before.drop (first.missingBelow made) = before := by
      rw [hfresh, List.take_append_of_le_length hlate, List.take_append_drop]
    have hselected := hall (before.drop (first.missingBelow made)) after (by
      rw [hfresh, List.drop_append_of_le_length hlate])
    rwa [hbefore] at hselected
  · intro hall before after hsplit
    refine hall _ after ?_ ?_
    · rw [List.append_assoc, ← hsplit, List.take_append_drop]
    · rw [List.length_append, hdone]
      omega

end Counted

omit hbest in
theorem agrees_iff
    (hslots : ∀ (index : Nat) (node : String),
      first.current[index]? = some node → index < 2 ^ 31 - 1)
    (hnodes : ∀ nodes, first.snapshot.nodes = some nodes → (nodes.map Node.name).Nodup) :
    (∀ index < first.desired, retry.pin index = first.pin index) ↔ first.RetryAgrees made := by
  cases hselected : selectNodeWithStrategy first.healthyCandidates first.strategy
      first.horizonSecs with
  | none =>
      have hnone : first.healthyCandidates = [] := by
        by_contra hne
        obtain ⟨node, hnode⟩ := target_isSome hretry.supported hne
        simp [target, hselected] at hnode
      constructor
      · intro _ best hsome
        rw [hselected] at hsome
        cases hsome
      · exact fun _ index hrange => hretry.pins_agree_of_no_healthy hnone hrange
  | some best =>
      have hbest : first.target = some best.name := by rw [target, hselected, Option.map_some]
      have hcounts := @countsOwn first (min made first.desired) hslots hnodes
      have hplace : best.name ∈ first.healthyCandidates.map NodeCandidate.name :=
        List.mem_map_of_mem (selectNodeWithStrategy_mem hselected)
      have hplanned : first.missingBelow (min made first.desired) ≤ first.missing.length := by
        rw [missing_eq_filter, ← List.countP_eq_length_filter]
        exact Nat.count_monotone _ (Nat.min_le_right _ _)
      have hunfold : first.RetryAgrees made ↔
          (first.movesBelow (min made first.desired) = 0 ∨
            first.displacedBelow first.desired ≤ first.budget) ∧
          (first.movesBelow (min made first.desired) < first.movesBelow first.desired →
            first.selectAfter (List.replicate (first.movesBelow (min made first.desired))
              best.name ++ first.fresh.take (first.missingBelow (min made first.desired))) =
                some best.name) ∧
          ∀ before after, first.fresh = before ++ best.name :: after →
            first.missingBelow (min made first.desired) ≤ before.length →
            first.selectAfter (List.replicate (first.movesBelow (min made first.desired))
              best.name ++ before) = some best.name := by
        rw [selectAfter_iff_staysFirst hretry.supported hcounts hplace hplanned,
          selectAfter_split_iff hretry.supported hcounts hplace, RetryAgrees, hselected]
        simp only [Option.some.injEq, forall_eq']
      rw [hunfold, hretry.pins_agree_iff hbest]
      refine and_congr_right fun _ => ?_
      rcases Nat.le_or_ge made first.desired with hmade | hmade
      · have htarget : retry.target = first.selectAfter
            (List.replicate (first.movesBelow made) best.name ++
              first.fresh.take (first.missingBelow made)) := by
          rw [target, hretry.strategy, hretry.horizonSecs,
            hretry.healthyCandidates_loaded hbest hmade hslots]
          rfl
        rw [Nat.min_eq_left hmade, htarget,
          hretry.planned_alike_iff hbest hmade hslots hnodes]
      · have hmissing : retry.missing = [] := by
          rw [hretry.missing_retry hbest, List.filter_eq_nil_iff]
          intro index hindex
          have hlt := ((mem_missing index).mp hindex).1
          simp only [decide_eq_true_eq]
          omega
        have hall : first.missingBelow first.desired = first.fresh.length := by
          rw [fresh_length hretry.supported (healthy_of_target hbest), missing_eq_filter,
            ← List.countP_eq_length_filter]
          rfl
        rw [Nat.min_eq_right hmade, hmissing, hall]
        refine and_congr (by simp) ⟨fun _ before after hfresh hlate => ?_, by simp⟩
        have hlength := congrArg List.length hfresh
        rw [List.length_append, List.length_cons] at hlength
        omega

end RetryOf

end ReconcileInput

end VllmColdstartOperator
