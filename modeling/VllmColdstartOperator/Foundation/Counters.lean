import Mathlib

/-!
# Counters that are reset

A counter counts events and is set to zero now and then.  Between two moments it
grows by at most the events in between, and by exactly those when it is not reset;
so what it grows by from one observation to the next adds up to at most the events
there were.
-/

namespace VllmColdstartOperator.Foundation

/-- A counter over time beside the number of events that happened. -/
structure CountsEvents (counter happened : Nat → Nat) (reset : Nat → Prop) : Prop where
  kept : ∀ time, ¬ reset time → ∃ events, counter (time + 1) = counter time + events ∧
    happened (time + 1) = happened time + events
  reset : ∀ time, reset time → counter (time + 1) = 0 ∧ happened (time + 1) = happened time

def lastBefore (observed : Nat → Bool) : Nat → Option Nat
  | 0 => none
  | time + 1 => if observed time then some time else lastBefore observed time

section Observations

variable {observed : Nat → Bool}

theorem lastBefore_eq_some {time earlier : Nat}
    (hlast : lastBefore observed time = some earlier) :
    earlier < time ∧ observed earlier = true := by
  induction time with
  | zero => cases hlast
  | succ time ih =>
      rw [lastBefore] at hlast
      split at hlast
      next hobserved =>
        cases hlast
        exact ⟨Nat.lt_succ_self _, hobserved⟩
      next => exact ⟨Nat.lt_succ_of_lt (ih hlast).1, (ih hlast).2⟩

end Observations

namespace CountsEvents

variable {counter happened : Nat → Nat} {reset : Nat → Prop}

theorem happened_mono (hcounts : CountsEvents counter happened reset) : Monotone happened := by
  apply monotone_nat_of_le_succ
  intro time
  by_cases hreset : reset time
  · exact (hcounts.reset time hreset).2.ge
  · obtain ⟨events, -, hevents⟩ := hcounts.kept time hreset
    omega

theorem counter_le (hcounts : CountsEvents counter happened reset) {earlier time : Nat}
    (hle : earlier ≤ time) : counter time - counter earlier ≤ happened time - happened earlier := by
  have hbound : counter time + happened earlier ≤ counter earlier + happened time := by
    induction time, hle using Nat.le_induction with
    | base => exact le_rfl
    | succ time hle ih =>
        have hmono := hcounts.happened_mono hle
        by_cases hreset : reset time
        · obtain ⟨hcounter, hhappened⟩ := hcounts.reset time hreset
          omega
        · obtain ⟨events, hcounter, hhappened⟩ := hcounts.kept time hreset
          omega
  omega

theorem counter_eq (hcounts : CountsEvents counter happened reset) {earlier time : Nat}
    (hle : earlier ≤ time)
    (hnever : ∀ between, earlier ≤ between → between < time → ¬ reset between) :
    counter earlier ≤ counter time ∧
      counter time - counter earlier = happened time - happened earlier := by
  have hequal : counter time + happened earlier = counter earlier + happened time := by
    induction time, hle using Nat.le_induction with
    | base => rfl
    | succ time hle ih =>
        have hbefore := ih fun between hlow hhigh => hnever between hlow (Nat.lt_succ_of_lt hhigh)
        obtain ⟨events, hcounter, hhappened⟩ :=
          hcounts.kept time (hnever time hle (Nat.lt_succ_self time))
        omega
  have hmono := hcounts.happened_mono hle
  omega

/-- What an observation sees the counter grown by since the one before. -/
def grown (counter : Nat → Nat) (observed : Nat → Bool) (time : Nat) : Nat :=
  if observed time then
    ((lastBefore observed time).map fun earlier => counter time - counter earlier).getD 0
  else 0

theorem sum_grown_le (hcounts : CountsEvents counter happened reset) (observed : Nat → Bool)
    (horizon : Nat) :
    ∑ time ∈ Finset.range horizon, grown counter observed time ≤ happened horizon := by
  -- the growth seen so far happened before the last observation
  have hsum : ∑ time ∈ Finset.range horizon, grown counter observed time ≤
      ((lastBefore observed horizon).map happened).getD 0 := by
    induction horizon with
    | zero => exact le_rfl
    | succ time ih =>
        rw [Finset.sum_range_succ, grown, lastBefore]
        by_cases hobserved : observed time
        · rw [if_pos hobserved, if_pos hobserved]
          cases hlast : lastBefore observed time with
          | none =>
              rw [hlast] at ih
              exact ih.trans (Nat.zero_le _)
          | some earlier =>
              have hle := (lastBefore_eq_some hlast).1.le
              have hgrown := hcounts.counter_le hle
              have hmono := hcounts.happened_mono hle
              rw [hlast] at ih
              simp only [Option.map_some, Option.getD_some] at ih ⊢
              omega
        · rw [if_neg hobserved, if_neg hobserved]
          exact ih
  cases hlast : lastBefore observed horizon with
  | none =>
      rw [hlast] at hsum
      exact hsum.trans (Nat.zero_le _)
  | some earlier =>
      rw [hlast] at hsum
      exact hsum.trans (hcounts.happened_mono (lastBefore_eq_some hlast).1.le)

end CountsEvents

end VllmColdstartOperator.Foundation
