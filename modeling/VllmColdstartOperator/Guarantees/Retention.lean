import VllmColdstartOperator.Foundation.Runs
import VllmColdstartOperator.Reporter.Report

/-!
# The retained efficiency signals

A published measurement stays published until a newer one replaces it, as long
as no process reports over it before it has measured anything itself.  A
restarted process has nothing retained, and its first report deletes the pair.
-/

namespace VllmColdstartOperator

open Foundation

inductive Efficiency where
  | hitRate
  | tokensPerJoule
  deriving DecidableEq, Repr

def Signals.measured (signals : Signals) : Efficiency → Option F32
  | .hitRate => signals.kvCacheHitRate
  | .tokensPerJoule => signals.tokensPerJoule

def Retention.last (retention : Retention) : Efficiency → Option (F32 × String)
  | .hitRate => retention.lastHitRate
  | .tokensPerJoule => retention.lastTokensPerJoule

def NodeStateStatus.published (status : NodeStateStatus) :
    Efficiency → Option F32 × Option String
  | .hitRate => (status.kvCacheHitRate, status.kvCacheHitRateObservedAt)
  | .tokensPerJoule => (status.tokensPerJoule, status.tokensPerJouleObservedAt)

def ReporterState.pair (state : ReporterState) (kind : Efficiency) :
    Option F32 × Option String :=
  (state.status.getD .empty).published kind

def ReporterEvent.measurement (kind : Efficiency) : ReporterEvent → Option (F32 × String)
  | .start => none
  | .failedGet => none
  | .report pass => (pass.signals.measured kind).map fun value => (value, pass.measuredAt)

/-- The value and the instant in the status are those of one measurement. -/
def Publishes (kind : Efficiency) (events : Nat → ReporterEvent) (start : ReporterState)
    (time index : Nat) : Prop :=
  index < time ∧ ∃ value instant, (events index).measurement kind = some (value, instant) ∧
    (run ReporterState.step events start time).pair kind = (some value, some instant)

/-- Measured values are numbers, and a report that reaches the API server over a
published value comes from a process that has measured. -/
def ReporterEvent.Keeps (kind : Efficiency) (event : ReporterEvent) (state : ReporterState) :
    Prop :=
  match event with
  | .start => True
  | .failedGet => True
  | .report pass =>
      (∀ value, pass.signals.measured kind = some value → value.isFinite = true) ∧
        (pass.applied = true → (state.pair kind).1.isSome = true →
          (pass.signals.measured kind).isSome = true ∨
            (state.retention.last kind).isSome = true)

/-! ## One event -/

variable {kind : Efficiency} {state : ReporterState} {event : ReporterEvent}

theorem update_last (retention : Retention) (signals : Signals) (measuredAt : String) :
    (retention.update signals measuredAt).last kind =
      ((signals.measured kind).map fun value => (value, measuredAt)).or
        (retention.last kind) := by
  have hretain : ∀ (measured : Option F32) (last : Option (F32 × String)),
      retain measured measuredAt last =
        (measured.map fun value => (value, measuredAt)).or last := by
    intro measured last
    cases measured <;> rfl
  cases kind with
  | hitRate => exact hretain _ _
  | tokensPerJoule => exact hretain _ _

theorem patch_published (retention : Retention) (signals : Signals) (generation : Int)
    (reportTime : String) (status : NodeStateStatus) :
    ((retention.patch signals generation reportTime).merge status).published kind =
      (((retention.last kind).map Prod.fst).bind jsonNumber,
        (retention.last kind).map Prod.snd) := by
  cases kind with
  | hitRate => rfl
  | tokensPerJoule => rfl

theorem step_last (event : ReporterEvent) (state : ReporterState) :
    ((ReporterState.step event state).retention.last kind) =
      match event with
      | .start => none
      | .failedGet => state.retention.last kind
      | .report _ => (event.measurement kind).or (state.retention.last kind) := by
  cases event with
  | start => cases kind <;> rfl
  | failedGet => rfl
  | report pass => exact update_last _ _ _

/-- A published pair stays, or is overwritten by what the process retains. -/
theorem step_pair (event : ReporterEvent) (state : ReporterState) :
    (ReporterState.step event state).pair kind = state.pair kind ∨
      ∃ pass, event = .report pass ∧ pass.applied = true ∧
        (ReporterState.step event state).pair kind =
          ((((ReporterState.step event state).retention.last kind).map Prod.fst).bind jsonNumber,
            ((ReporterState.step event state).retention.last kind).map Prod.snd) := by
  cases event with
  | start => exact .inl rfl
  | failedGet => exact .inl rfl
  | report pass =>
      cases happlied : pass.applied with
      | false =>
          left
          simp [ReporterState.step, ReporterState.pair, happlied]
      | true =>
          right
          refine ⟨pass, rfl, happlied, ?_⟩
          rw [ReporterState.step, ReporterState.pair]
          dsimp only
          rw [if_pos happlied, Option.getD_some, patch_published]

/-! ## Runs -/

section Run

variable {events : Nat → ReporterEvent} {start : ReporterState}

/-- What a process retains is the latest measurement of the whole run, and a
number. -/
def RetainsLatest (kind : Efficiency) (events : Nat → ReporterEvent) (time : Nat)
    (state : ReporterState) : Prop :=
  ∀ value instant, state.retention.last kind = some (value, instant) →
    value.isFinite = true ∧ ∃ index < time,
      (events index).measurement kind = some (value, instant) ∧
        ∀ other < time, ((events other).measurement kind).isSome = true → other ≤ index

theorem RetainsLatest.succ {time : Nat} {state next : ReporterState}
    (hlatest : RetainsLatest kind events time state)
    (hnone : (events time).measurement kind = none)
    (hlast : next.retention.last kind = state.retention.last kind) :
    RetainsLatest kind events (time + 1) next := by
  intro value instant hretained
  rw [hlast] at hretained
  obtain ⟨hfinite, index, hindex, hmeasured, hnewest⟩ := hlatest value instant hretained
  refine ⟨hfinite, index, Nat.lt_succ_of_lt hindex, hmeasured, fun other hother hsome => ?_⟩
  rcases Nat.lt_succ_iff_lt_or_eq.mp hother with hlt | rfl
  · exact hnewest other hlt hsome
  · simp [hnone] at hsome

theorem run_retainsLatest (hstart : start.retention = .empty)
    (hkeeps : ∀ time,
      (events time).Keeps kind (run ReporterState.step events start time)) (time : Nat) :
    RetainsLatest kind events time (run ReporterState.step events start time) := by
  induction time with
  | zero =>
      intro value instant hlast
      rw [run_zero, hstart] at hlast
      cases kind <;> cases hlast
  | succ time ih =>
      have hlast := @step_last kind (events time) (run ReporterState.step events start time)
      have hkept := hkeeps time
      rw [run_succ]
      cases hevent : events time with
      | start =>
          intro value instant hretained
          rw [hevent] at hlast
          rw [hlast] at hretained
          cases hretained
      | failedGet =>
          rw [hevent] at hlast
          exact ih.succ (by rw [hevent]; rfl) hlast
      | report pass =>
          rw [hevent] at hlast hkept
          cases hmeasured : pass.signals.measured kind with
          | none =>
              have hnone : (ReporterEvent.report pass).measurement kind = none := by
                rw [ReporterEvent.measurement, hmeasured]
                rfl
              refine ih.succ (by rw [hevent, hnone]) ?_
              rw [hlast]
              dsimp only
              rw [hnone, Option.none_or]
          | some measured =>
              have hsome : (ReporterEvent.report pass).measurement kind =
                  some (measured, pass.measuredAt) := by
                rw [ReporterEvent.measurement, hmeasured]
                rfl
              intro value instant hretained
              rw [hlast] at hretained
              dsimp only at hretained
              rw [hsome, Option.some_or] at hretained
              cases hretained
              exact ⟨hkept.1 measured hmeasured, time, Nat.lt_succ_self time,
                by rw [hevent, hsome], fun other hother _ => Nat.le_of_lt_succ hother⟩

end Run

/-- A published measurement is only ever replaced by a newer one, in every run
whose reports come from processes that have measured. -/
theorem retained_signal_kept (kind : Efficiency) (events : Nat → ReporterEvent)
    (status : Option NodeStateStatus)
    (hkeeps : ∀ time, (events time).Keeps kind
      (run ReporterState.step events ⟨.empty, status⟩ time))
    {time index : Nat} (hpublished : Publishes kind events ⟨.empty, status⟩ time index)
    {later : Nat} (hle : time ≤ later) :
    ∃ newer ≥ index, Publishes kind events ⟨.empty, status⟩ later newer := by
  induction later, hle using Nat.le_induction with
  | base => exact ⟨index, le_rfl, hpublished⟩
  | succ later hle ih =>
      obtain ⟨newer, hnewer, hlt, value, instant, hmeasured, hpair⟩ := ih
      rcases @step_pair kind (events later)
          (run ReporterState.step events ⟨.empty, status⟩ later) with
        hsame | ⟨pass, hevent, happlied, hwritten⟩
      · refine ⟨newer, hnewer, Nat.lt_succ_of_lt hlt, value, instant, hmeasured, ?_⟩
        rw [run_succ, hsame, hpair]
      · have hretained : ∃ pair, (ReporterState.step (events later)
            (run ReporterState.step events ⟨.empty, status⟩ later)).retention.last kind =
              some pair := by
          have hmeasures := hkeeps later
          rw [hevent] at hmeasures
          rw [hevent, step_last]
          rcases hmeasures.2 happlied (by rw [hpair]; rfl) with hnow | hbefore
          · obtain ⟨measured, hnow⟩ := Option.isSome_iff_exists.mp hnow
            exact ⟨(measured, pass.measuredAt), by simp [ReporterEvent.measurement, hnow]⟩
          · obtain ⟨last, hlast⟩ := Option.isSome_iff_exists.mp hbefore
            rw [← Option.isSome_iff_exists]
            simp [hlast]
        obtain ⟨⟨latest, since⟩, hlast⟩ := hretained
        obtain ⟨hfinite, found, hfound, hsame, hnewest⟩ :=
          run_retainsLatest rfl hkeeps (later + 1) latest since (by rw [run_succ, hlast])
        refine ⟨found, hnewer.trans (hnewest newer (Nat.lt_succ_of_lt hlt) ?_), hfound, latest,
          since, hsame, ?_⟩
        · rw [hmeasured]
          rfl
        · rw [run_succ, hwritten, hlast]
          simp [jsonNumber, hfinite]

namespace Sample

def measuring (value : Option F32) (measuredAt : String) : ReporterEvent :=
  .report ⟨⟨none, none, none, value, none, none, none⟩, 0, measuredAt, "", true⟩

/-- A process that is restarted before each report and measures every time. -/
def restarting (time : Nat) : ReporterEvent :=
  if time % 2 = 0 then .start else measuring (some ⟨0x3f000000#32⟩) "instant"

theorem retained_signal_kept_sample :
    ∃ newer ≥ 1, Publishes .hitRate restarting ⟨.empty, none⟩ 7 newer := by
  refine @retained_signal_kept .hitRate restarting none (fun time => ?_) 2 1
    ⟨by decide, ⟨0x3f000000#32⟩, "instant", rfl, rfl⟩ 7 (by decide)
  rw [restarting]
  split
  · trivial
  · refine ⟨fun value hvalue => ?_, fun _ _ => .inl rfl⟩
    cases hvalue
    rfl

/-- A measured hit rate, a restart, and a report before the next measurement. -/
def forgetting (time : Nat) : ReporterEvent :=
  if time = 0 then measuring (some ⟨0x3f000000#32⟩) "instant"
  else if time = 1 then .start
  else measuring none "later"

theorem retained_signal_counterexample :
    ¬ ∀ (kind : Efficiency) (events : Nat → ReporterEvent) (status : Option NodeStateStatus)
      (time index : Nat), Publishes kind events ⟨.empty, status⟩ time index →
      ∀ later ≥ time, ∃ newer ≥ index, Publishes kind events ⟨.empty, status⟩ later newer := by
  intro hall
  obtain ⟨newer, -, -, value, instant, -, hpair⟩ := hall .hitRate forgetting none 1 0
    ⟨by decide, ⟨0x3f000000#32⟩, "instant", rfl, rfl⟩ 3 (by decide)
  have hdeleted : (run ReporterState.step forgetting ⟨.empty, none⟩ 3).pair .hitRate =
      (none, none) := by decide
  rw [hdeleted] at hpair
  cases hpair

end Sample

end VllmColdstartOperator
