import VllmColdstartOperator.Foundation.F64
import VllmColdstartOperator.Foundation.Fields
import VllmColdstartOperator.Guarantees.Writers

/-!
# The stored node state

What the API server holds of a NodeState is JSON; the reporter and the other
writers merge-patch it, and every reader reads a `NodeStateStatus` off it.
Absent fields read as their defaults, a missing or null status as no status, and
an unreadable one fails the whole object.
-/

namespace VllmColdstartOperator

open Foundation Json

/-! ## Scalars -/

def readText : Json JsonScalar → Option String
  | .scalar (.text value) => some value
  | _ => none

def readBool : Json JsonScalar → Option Bool
  | .scalar (.bool value) => some value
  | _ => none

def InI64 (value : Int) : Prop := -2 ^ 63 ≤ value ∧ value < 2 ^ 63

instance (value : Int) : Decidable (InI64 value) := inferInstanceAs (Decidable (_ ∧ _))

def readI64 : Json JsonScalar → Option Int
  | .scalar (.integer value) => if InI64 value then some value else none
  | _ => none

def readI32 : Json JsonScalar → Option Int32
  | .scalar (.integer value) =>
      if -2 ^ 31 ≤ value ∧ value < 2 ^ 31 then some (Int32.ofInt value) else none
  | _ => none

/-- An integer reads as the nearest float; one of more than 64 bits is a double
before it is narrowed. -/
def readF32 : Json JsonScalar → Option F32
  | .scalar (.float value) => some value
  | .scalar (.integer value) =>
      if -2 ^ 63 ≤ value ∧ value < 2 ^ 64 then
        some ⟨Float.Model.UnpackedFloat.pack .binary32
          (Float.Model.UnpackedFloat.ofInt .binary32 value)⟩
      else some (F64.toF32 (.ofModel (.ofInt value)))
  | _ => none

theorem readI32_integer (value : Int32) :
    readI32 (.scalar (.integer value.toInt)) = some value := by
  have hlow := value.le_toInt
  have hhigh := value.toInt_lt
  rw [readI32, if_pos ⟨by omega, by omega⟩, Int32.ofInt_toInt]

theorem readI64_integer {value : Int} (hvalue : InI64 value) :
    readI64 (.scalar (.integer value)) = some value := if_pos hvalue

/-! ## The status -/

def Warmth.read (json : Json JsonScalar) : Option Warmth := do
  match ← readText json with
  | "Cold" => some .cold
  | "Warming" => some .warming
  | "Warm" => some .warm
  | _ => none

def SpotStatus.read : Json JsonScalar → Option SpotStatus
  | .object members => do
      let isSpotInstance ← defaulted readBool false (lookup "isSpotInstance" members)
      let preemptionNoticeDetected ←
        defaulted readBool false (lookup "preemptionNoticeDetected" members)
      let preemptionNoticeTime ← defaulted readText "" (lookup "preemptionNoticeTime" members)
      some ⟨isSpotInstance, preemptionNoticeDetected, preemptionNoticeTime⟩
  | _ => none

def NodeStateStatus.read : Json JsonScalar → Option NodeStateStatus
  | .object members => do
      let observedGeneration ← defaulted readI64 0 (lookup "observedGeneration" members)
      let lastReportTime ← defaulted readText "" (lookup "lastReportTime" members)
      let warmth ← defaulted Warmth.read .cold (lookup "warmth" members)
      let gpuUtilization ← optional readF32 (lookup "gpuUtilization" members)
      let gpuMemoryUsedBytes ← optional readI64 (lookup "gpuMemoryUsedBytes" members)
      let activeServiceCount ← optional readI32 (lookup "activeServiceCount" members)
      let kvCacheHitRate ← optional readF32 (lookup "kvCacheHitRate" members)
      let kvCacheHitRateObservedAt ←
        optional readText (lookup "kvCacheHitRateObservedAt" members)
      let tokensPerJoule ← optional readF32 (lookup "tokensPerJoule" members)
      let tokensPerJouleObservedAt ←
        optional readText (lookup "tokensPerJouleObservedAt" members)
      let requestsWaiting ← optional readF32 (lookup "requestsWaiting" members)
      let requestsRunning ← optional readF32 (lookup "requestsRunning" members)
      let spot ← defaulted SpotStatus.read ⟨false, false, ""⟩ (lookup "spot" members)
      some {
        observedGeneration, lastReportTime, warmth, gpuUtilization, gpuMemoryUsedBytes,
        activeServiceCount, kvCacheHitRate, kvCacheHitRateObservedAt, tokensPerJoule,
        tokensPerJouleObservedAt, requestsWaiting, requestsRunning, spot }
  | _ => none

/-- The status of a stored object; the outer `none` is one that does not read. -/
def storedStatus {α : Type} (read : Json JsonScalar → Option α) (json : Json JsonScalar) :
    Option (Option α) :=
  optional read (lookup "status" json.members)

theorem storedStatus_patched {α : Type} {read : Json JsonScalar → Option α} {empty next : α}
    (hobject : ∀ json value, read json = some value → json = .object json.members)
    (hempty : read (.object []) = some empty) {json : Json JsonScalar} {status : Option α}
    (hstatus : storedStatus read json = some status) {patch : List (String × Json JsonScalar)}
    (hmerged : ∀ members, read (.object members) = some (status.getD empty) →
      read (.object (mergeMembers members patch)) = some next) :
    storedStatus read (mergePatch json (.object [("status", .object patch)])) =
      some (some next) := by
  have hmem : ("status", Json.object patch) ∈ [("status", Json.object patch)] :=
    List.mem_singleton_self _
  rw [storedStatus, mergePatch, Json.members, lookup_merged_object (by simp) hmem,
    optional_object, hmerged _ (read_members_of_optional hobject hempty hstatus)]
  rfl

/-! ## The writers -/

/-- The patch of another writer: the warmth and the whole of `spot`. -/
def otherPatch (warmth : Warmth) (spot : SpotStatus) : OtherPatch where
  members := [("warmth", .scalar (.text warmth.debug)), ("spot", spot.json)]
  owned := by simp

/-- The memory of the reporter's process and the object in the API server. -/
structure StoredNodeState where
  retention : Retention
  json : Json JsonScalar

def StoredNodeState.step (event : NodeStateEvent) (stored : StoredNodeState) : StoredNodeState :=
  match event with
  | .reporter .start => { stored with retention := .empty }
  | .reporter .failedGet => stored
  | .reporter (.report pass) =>
      let retention := stored.retention.update pass.signals pass.measuredAt
      { retention := retention
        json :=
          if pass.applied then
            mergePatch stored.json
              (retention.patch pass.signals pass.generation pass.reportTime).json
          else stored.json }
  | .other warmth spot =>
      { stored with json := mergePatch stored.json (otherPatch warmth spot).json }
  | .recreated =>
      { stored with json := .object (eraseMember "status" stored.json.members) }

end VllmColdstartOperator
