import Mathlib

/-!
# Runs of a step function

A run is the sequence of states a step function goes through under a sequence
of inputs.  An invariant that every allowed step keeps holds as long as the
steps taken were allowed.  A measure that never grows is constant in the end,
and so is a sequence that repeats a value.  The last part is about a position
observed along a run that leaves barred places only, and enters none: it never
returns to a place it left, so it leaves each barred place at most once.
-/

namespace VllmColdstartOperator.Foundation

section Run

variable {ι σ : Type}

def run (step : ι → σ → σ) (inputs : Nat → ι) (start : σ) : Nat → σ
  | 0 => start
  | time + 1 => step (inputs time) (run step inputs start time)

variable {step : ι → σ → σ} {inputs : Nat → ι} {start : σ}

@[simp] theorem run_zero : run step inputs start 0 = start := rfl

theorem run_succ (time : Nat) :
    run step inputs start (time + 1) = step (inputs time) (run step inputs start time) := rfl

/-- Induction over a run all of whose steps so far were allowed. -/
theorem run_invariant {Inv : σ → Prop} {Allowed : ι → σ → Prop} (hstart : Inv start)
    (hstep : ∀ input state, Allowed input state → Inv state → Inv (step input state))
    (time : Nat)
    (hallowed : ∀ earlier < time, Allowed (inputs earlier) (run step inputs start earlier)) :
    Inv (run step inputs start time) := by
  induction time with
  | zero => exact hstart
  | succ time ih =>
      have hinv := ih fun earlier hlt => hallowed earlier (Nat.lt_succ_of_lt hlt)
      exact hstep _ _ (hallowed time (Nat.lt_succ_self time)) hinv

end Run

section Settling

theorem eventually_constant {values : Nat → Nat}
    (hdecreasing : ∀ time, values (time + 1) ≤ values time) :
    ∃ settled, ∀ time ≥ settled, values (time + 1) = values time := by
  have hanti : Antitone values := antitone_nat_of_succ_le hdecreasing
  obtain ⟨settled, hleast⟩ := Nat.sInf_mem (Set.range_nonempty values)
  refine ⟨settled, fun time hle => ?_⟩
  have hupper : values time ≤ values settled := hanti hle
  have hlower : values settled ≤ values (time + 1) := hleast ▸ Nat.sInf_le ⟨time + 1, rfl⟩
  exact Nat.le_antisymm (hdecreasing time) (hupper.trans hlower)

theorem stays_of_repeated {α : Type} {values : Nat → α} {step : α → α} {start : Nat}
    (hstep : ∀ time ≥ start, values (time + 1) = step (values time))
    (hrepeated : values (start + 1) = values start) {time : Nat} (hle : start ≤ time) :
    values (time + 1) = values time := by
  induction time, hle using Nat.le_induction with
  | base => exact hrepeated
  | succ time hle ih =>
      rw [hstep (time + 1) (Nat.le_succ_of_le hle), ih, ← hstep time hle, ih]

end Settling

section Leaving

variable {α : Type} {position : Nat → Option α} {barred : Nat → α → Prop}

/-- A position that changes leaves a barred place, and no change enters one. -/
structure LeavesBarred (position : Nat → Option α) (barred : Nat → α → Prop) : Prop where
  grows : ∀ time place, barred time place → barred (time + 1) place
  leaves : ∀ time place next, position time = some place →
    position (time + 1) = some next → place ≠ next → barred time place
  enters : ∀ time next, position (time + 1) = some next →
    position time ≠ some next → ¬ barred time next

namespace LeavesBarred

theorem barred_later (hleaves : LeavesBarred position barred) {time later : Nat} {place : α}
    (hle : time ≤ later) (hbarred : barred time place) : barred later place := by
  induction later, hle using Nat.le_induction with
  | base => exact hbarred
  | succ later _ ih => exact hleaves.grows later place ih

theorem never_back (hleaves : LeavesBarred position barred) {time later : Nat} {place : α}
    (hbarred : barred time place) (hgone : position (time + 1) ≠ some place)
    (hlt : time < later) : position later ≠ some place := by
  induction later, hlt using Nat.le_induction with
  | base => exact hgone
  | succ later hle ih =>
      intro hback
      apply hleaves.enters later place hback ih
      exact hleaves.barred_later (Nat.le_of_succ_le hle) hbarred

theorem not_return (hleaves : LeavesBarred position barred) {first middle last : Nat}
    {place : α} (hsomewhere : ∀ time, first ≤ time → time ≤ middle → position time ≠ none)
    (hfirst : position first = some place) (hmiddle : position middle ≠ some place)
    (hle : first ≤ middle) (hlast : middle ≤ last) : position last ≠ some place := by
  induction middle, hle using Nat.le_induction with
  | base => exact absurd hfirst hmiddle
  | succ middle hle ih =>
      by_cases hstill : position middle = some place
      · obtain ⟨next, hnext⟩ := Option.ne_none_iff_exists'.mp
          (hsomewhere (middle + 1) (Nat.le_succ_of_le hle) le_rfl)
        have hne : place ≠ next := by
          rintro rfl
          exact hmiddle hnext
        exact hleaves.never_back (hleaves.leaves middle place next hstill hnext hne)
          hmiddle hlast
      · exact ih (fun time hlow hhigh => hsomewhere time hlow (Nat.le_succ_of_le hhigh))
          hstill (Nat.le_of_succ_le hlast)

end LeavesBarred

def Moves [DecidableEq α] (position : Nat → Option α) (time : Nat) : Bool :=
  (position time).isSome && (position (time + 1)).isSome &&
    decide (position time ≠ position (time + 1))

variable [DecidableEq α]

theorem moves_iff (time : Nat) : Moves position time = true ↔
    ∃ place next, position time = some place ∧ position (time + 1) = some next ∧
      place ≠ next := by
  unfold Moves
  cases position time with
  | none => simp
  | some place =>
      cases position (time + 1) with
      | none => simp
      | some next => simp

/-- The number of moves is at most the number of places ever barred. -/
theorem LeavesBarred.count_moves_le (hleaves : LeavesBarred position barred) (horizon : Nat)
    {places : List α} (hplaces : ∀ time < horizon, ∀ place, barred time place → place ∈ places) :
    (List.range horizon).countP (Moves position) ≤ places.length := by
  have hleft : ∀ time ∈ (List.range horizon).filter (Moves position),
      ∃ place, position time = some place ∧ barred time place ∧ place ∈ places ∧
        position (time + 1) ≠ some place := by
    intro time hmem
    obtain ⟨hrange, hmoves⟩ := List.mem_filter.mp hmem
    obtain ⟨place, next, hplace, hnext, hne⟩ := (moves_iff time).mp hmoves
    have hbarred := hleaves.leaves time place next hplace hnext hne
    refine ⟨place, hplace, hbarred, hplaces time (List.mem_range.mp hrange) place hbarred, ?_⟩
    rw [hnext]
    simpa using hne.symm
  have hnodup : (((List.range horizon).filter (Moves position)).map position).Nodup := by
    rw [List.nodup_iff_pairwise_ne, List.pairwise_map]
    refine (List.pairwise_lt_range.filter _).imp_of_mem ?_
    intro time later hmem _ hlt hsame
    obtain ⟨place, hplace, hbarred, -, hgone⟩ := hleft time hmem
    exact hleaves.never_back hbarred hgone hlt (hsame.symm.trans hplace)
  have hsubset : ((List.range horizon).filter (Moves position)).map position ⊆
      places.map some := by
    intro found hfound
    obtain ⟨time, hmem, rfl⟩ := List.mem_map.mp hfound
    obtain ⟨place, hplace, -, hin, -⟩ := hleft time hmem
    rw [hplace]
    exact List.mem_map_of_mem hin
  calc (List.range horizon).countP (Moves position)
      = (((List.range horizon).filter (Moves position)).map position).length := by
        rw [List.length_map, List.countP_eq_length_filter]
    _ ≤ (places.map some).length := (hnodup.subperm hsubset).length_le
    _ = places.length := List.length_map _

end Leaving

end VllmColdstartOperator.Foundation
