import VllmColdstartOperator.Foundation.Runs

/-!
# What an event that keeps occurring brings about

Along a run whose steps are numbered, an event is fair when it occurs again and
again.  What each occurrence makes and every other step keeps holds in the end;
and a value that other steps leave alone is met by the next occurrence as it is
now.
-/

namespace VllmColdstartOperator.Foundation

open Filter

section Fair

variable {event : Nat → Prop}

/-- A property that a fair event makes, and that the other steps keep, holds
from some time on. -/
theorem eventually_of_fair {holds : Nat → Prop} (hfair : ∃ᶠ time in atTop, event time)
    (hmakes : ∀ᶠ time in atTop, event time → holds (time + 1))
    (hkeeps : ∀ᶠ time in atTop, ¬ event time → holds time → holds (time + 1)) :
    ∀ᶠ time in atTop, holds time := by
  obtain ⟨start, hstart⟩ := eventually_atTop.mp (hmakes.and hkeeps)
  obtain ⟨first, hfirst, hevent⟩ := frequently_atTop.mp hfair start
  refine eventually_atTop.mpr ⟨first + 1, fun time htime => ?_⟩
  induction time, htime using Nat.le_induction with
  | base => exact (hstart first hfirst).1 hevent
  | succ time htime ih =>
      have hlate : start ≤ time := hfirst.trans (Nat.le_of_succ_le htime)
      by_cases hagain : event time
      · exact (hstart time hlate).1 hagain
      · exact (hstart time hlate).2 hagain ih

theorem exists_next {α : Type*} {value : Nat → α} (hfair : ∃ᶠ time in atTop, event time)
    (hkept : ∀ time, ¬ event time → value (time + 1) = value time) (time : Nat) :
    ∃ next ≥ time, event next ∧ value next = value time := by
  classical
  have hlater : ∃ gap, event (time + gap) := by
    obtain ⟨next, hnext, hevent⟩ := frequently_atTop.mp hfair time
    exact ⟨next - time, by rwa [Nat.add_sub_cancel' hnext]⟩
  have hsame : ∀ gap ≤ Nat.find hlater, value (time + gap) = value time := by
    intro gap hgap
    induction gap with
    | zero => rfl
    | succ gap ih =>
        exact (hkept (time + gap) (Nat.find_min hlater hgap)).trans (ih (Nat.le_of_succ_le hgap))
  exact ⟨time + Nat.find hlater, Nat.le_add_right _ _, Nat.find_spec hlater, hsame _ le_rfl⟩

/-- Of two occurrences that each end the phase the other waits for, the one that
is waited for comes again and again. -/
theorem frequently_in_phase {phase other : Nat → Prop} (hfair : ∃ᶠ time in atTop, event time)
    (hother : ∃ᶠ time in atTop, other time)
    (hkept : ∀ᶠ time in atTop, ¬ (phase time ∧ event time) → ¬ (¬ phase time ∧ other time) →
      (phase (time + 1) ↔ phase time)) :
    ∃ᶠ time in atTop, phase time ∧ event time ∨ ¬ phase time ∧ other time := by
  rw [frequently_atTop]
  intro bound
  by_contra hnever
  obtain ⟨start, hstart⟩ := eventually_atTop.mp hkept
  have hnone : ∀ time ≥ bound, ¬ (phase time ∧ event time) ∧ ¬ (¬ phase time ∧ other time) := by
    intro time htime
    exact not_or.mp fun hboth => hnever ⟨time, htime, hboth⟩
  have hsame : ∀ time ≥ max bound start, (phase time ↔ phase (max bound start)) := by
    intro time htime
    induction time, htime using Nat.le_induction with
    | base => exact Iff.rfl
    | succ time htime ih =>
        obtain ⟨hfirst, hsecond⟩ := hnone time ((le_max_left _ _).trans htime)
        exact (hstart time ((le_max_right _ _).trans htime) hfirst hsecond).trans ih
  by_cases hphase : phase (max bound start)
  · obtain ⟨time, htime, hevent⟩ := frequently_atTop.mp hfair (max bound start)
    exact (hnone time ((le_max_left _ _).trans htime)).1 ⟨(hsame time htime).mpr hphase, hevent⟩
  · obtain ⟨time, htime, hevent⟩ := frequently_atTop.mp hother (max bound start)
    exact (hnone time ((le_max_left _ _).trans htime)).2
      ⟨(hsame time htime).not.mpr hphase, hevent⟩

/-- A rank that never grows and falls at every occurrence cannot go on, so what
ends the fall comes about and, once kept, holds from some time on. -/
theorem eventually_of_rank {holds : Nat → Prop} {rank : Nat → Nat}
    (hfair : ∃ᶠ time in atTop, event time)
    (hfalls : ∀ᶠ time in atTop, event time → rank (time + 1) < rank time ∨ holds (time + 1))
    (hstays : ∀ᶠ time in atTop, ¬ event time → rank (time + 1) ≤ rank time)
    (hkeeps : ∀ᶠ time in atTop, holds time → holds (time + 1)) :
    ∀ᶠ time in atTop, holds time := by
  obtain ⟨start, hstart⟩ := eventually_atTop.mp (hfalls.and (hstays.and hkeeps))
  have hreached : ∃ time ≥ start, holds time := by
    by_contra hnever
    have hnot : ∀ time ≥ start, ¬ holds time := fun time htime hholds =>
      hnever ⟨time, htime, hholds⟩
    have hdecreasing : ∀ gap, rank (start + (gap + 1)) ≤ rank (start + gap) := by
      intro gap
      have hlate : start ≤ start + gap := Nat.le_add_right start gap
      by_cases hevent : event (start + gap)
      · exact ((hstart _ hlate).1 hevent |>.resolve_right (hnot _ (Nat.le_succ_of_le hlate))).le
      · exact (hstart _ hlate).2.1 hevent
    obtain ⟨gap, hconstant⟩ :=
      @eventually_constant (fun gap => rank (start + gap)) hdecreasing
    obtain ⟨time, htime, hevent⟩ := frequently_atTop.mp hfair (start + gap)
    have hlate : start ≤ time := (Nat.le_add_right start gap).trans htime
    have hsame : rank (time + 1) = rank time := by
      have hequal := hconstant (time - start) (by omega)
      rwa [← Nat.add_assoc, Nat.add_sub_cancel' hlate] at hequal
    rcases (hstart time hlate).1 hevent with hlt | hholds
    · exact absurd hsame hlt.ne
    · exact hnot (time + 1) (Nat.le_succ_of_le hlate) hholds
  obtain ⟨first, hfirst, hholds⟩ := hreached
  refine eventually_atTop.mpr ⟨first, fun time htime => ?_⟩
  induction time, htime using Nat.le_induction with
  | base => exact hholds
  | succ time htime ih => exact (hstart time (hfirst.trans htime)).2.2 ih

end Fair

end VllmColdstartOperator.Foundation
