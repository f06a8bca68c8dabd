import VllmColdstartOperator.Reporter.Sources

/-!
# The report loop

Each pass of the loop samples the source, keeps the last measured value of the
two efficiency signals with the instant of its measurement, and merge-patches
the status of the node state.  What is kept lives in the process: a restart
begins with nothing.
-/

namespace VllmColdstartOperator

open Foundation

/-- The last measured values, each with the instant it was measured. -/
structure Retention where
  lastHitRate : Option (F32 × String)
  lastTokensPerJoule : Option (F32 × String)
  deriving DecidableEq, Repr

def Retention.empty : Retention := ⟨none, none⟩

/-- A measurement replaces the retained pair, and its absence leaves it. -/
def retain (measured : Option F32) (measuredAt : String) (last : Option (F32 × String)) :
    Option (F32 × String) :=
  match measured with
  | some value => some (value, measuredAt)
  | none => last

def Retention.update (retention : Retention) (signals : Signals) (measuredAt : String) :
    Retention where
  lastHitRate := retain signals.kvCacheHitRate measuredAt retention.lastHitRate
  lastTokensPerJoule :=
    retain signals.tokensPerJoule measuredAt retention.lastTokensPerJoule

/-! ## The status patch -/

/-- What the reporter writes; an absent value is a null, which deletes its key. -/
structure ReportPatch where
  observedGeneration : Int
  lastReportTime : String
  gpuUtilization : Option F32
  gpuMemoryUsedBytes : Option Int
  activeServiceCount : Option Int32
  kvCacheHitRate : Option F32
  kvCacheHitRateObservedAt : Option String
  tokensPerJoule : Option F32
  tokensPerJouleObservedAt : Option String
  requestsWaiting : Option F32
  requestsRunning : Option F32
  deriving DecidableEq, Repr

/-- A float that is not finite has no JSON number and is written as a null. -/
def jsonNumber (value : F32) : Option F32 := if value.isFinite then some value else none

def Retention.patch (retention : Retention) (signals : Signals) (generation : Int)
    (reportTime : String) : ReportPatch where
  observedGeneration := generation
  lastReportTime := reportTime
  gpuUtilization := signals.gpuUtilization.bind jsonNumber
  gpuMemoryUsedBytes := signals.gpuMemoryUsedBytes
  activeServiceCount := signals.activeServiceCount
  kvCacheHitRate := (retention.lastHitRate.map Prod.fst).bind jsonNumber
  kvCacheHitRateObservedAt := retention.lastHitRate.map Prod.snd
  tokensPerJoule := (retention.lastTokensPerJoule.map Prod.fst).bind jsonNumber
  tokensPerJouleObservedAt := retention.lastTokensPerJoule.map Prod.snd
  requestsWaiting := signals.requestsWaiting.bind jsonNumber
  requestsRunning := signals.requestsRunning.bind jsonNumber

def NodeStateStatus.empty : NodeStateStatus :=
  ⟨0, "", .cold, none, none, none, none, none, none, none, none, none, ⟨false, false, ""⟩⟩

/-- The merge leaves the fields of the other writers. -/
def ReportPatch.merge (patch : ReportPatch) (status : NodeStateStatus) : NodeStateStatus :=
  { status with
    observedGeneration := patch.observedGeneration
    lastReportTime := patch.lastReportTime
    gpuUtilization := patch.gpuUtilization
    gpuMemoryUsedBytes := patch.gpuMemoryUsedBytes
    activeServiceCount := patch.activeServiceCount
    kvCacheHitRate := patch.kvCacheHitRate
    kvCacheHitRateObservedAt := patch.kvCacheHitRateObservedAt
    tokensPerJoule := patch.tokensPerJoule
    tokensPerJouleObservedAt := patch.tokensPerJouleObservedAt
    requestsWaiting := patch.requestsWaiting
    requestsRunning := patch.requestsRunning }

/-! ## The loop and its restarts -/

/-- One pass of the loop: what the source measured, the generation read, the
clock reads, and whether the API server applied the patch. -/
structure Pass where
  signals : Signals
  generation : Int
  measuredAt : String
  reportTime : String
  applied : Bool
  deriving DecidableEq, Repr

inductive ReporterEvent where
  | start
  | failedGet
  | report (pass : Pass)
  deriving DecidableEq, Repr

/-- The memory of the process and the status in the API server. -/
structure ReporterState where
  retention : Retention
  status : Option NodeStateStatus
  deriving DecidableEq, Repr

def ReporterState.step (event : ReporterEvent) (state : ReporterState) : ReporterState :=
  match event with
  | .start => { state with retention := .empty }
  | .failedGet => state
  | .report pass =>
      let retention := state.retention.update pass.signals pass.measuredAt
      { retention := retention
        status :=
          if pass.applied then
            some ((retention.patch pass.signals pass.generation pass.reportTime).merge
              (state.status.getD .empty))
          else state.status }

/-! ## All writers of a node state -/

/-- The reporter, whoever sets the warmth and the notice, and whoever deletes
the object and creates it again. -/
inductive NodeStateEvent where
  | reporter (event : ReporterEvent)
  | other (warmth : Warmth) (spot : SpotStatus)
  | recreated

def NodeStateEvent.step (event : NodeStateEvent) (state : ReporterState) : ReporterState :=
  match event with
  | .reporter event => ReporterState.step event state
  | .other warmth spot =>
      { state with
        status := some { state.status.getD .empty with warmth := warmth, spot := spot } }
  | .recreated => { state with status := none }

end VllmColdstartOperator
