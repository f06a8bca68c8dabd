import VllmColdstartOperator.Guarantees.Retention
import VllmColdstartOperator.Stored.NodeState

/-!
# The stored node state reads as the modelled one

Whatever the reporter, its restarts, its failed patches and the other writers do
to the JSON in the API server, what every reader reads off it is the status that
the same events make of a `NodeStateStatus`.
-/

namespace VllmColdstartOperator

open Foundation Json

/-! ## Reading, field by field -/

theorem object_of_readStatus {json : Json JsonScalar} {status : NodeStateStatus}
    (hread : NodeStateStatus.read json = some status) : json = .object json.members := by
  cases json with
  | object members => rfl
  | null => cases hread
  | scalar value => cases hread
  | array items => cases hread

theorem NodeStateStatus.read_nil : NodeStateStatus.read (.object []) = some .empty := rfl

/-- What stands at each key reads as the field of that name. -/
structure NodeStateStatus.ReadsFrom (members : List (String × Json JsonScalar))
    (status : NodeStateStatus) : Prop where
  observedGeneration : defaulted readI64 0 (lookup "observedGeneration" members) =
    some status.observedGeneration
  lastReportTime : defaulted readText "" (lookup "lastReportTime" members) =
    some status.lastReportTime
  warmth : defaulted Warmth.read .cold (lookup "warmth" members) = some status.warmth
  gpuUtilization : optional readF32 (lookup "gpuUtilization" members) =
    some status.gpuUtilization
  gpuMemoryUsedBytes : optional readI64 (lookup "gpuMemoryUsedBytes" members) =
    some status.gpuMemoryUsedBytes
  activeServiceCount : optional readI32 (lookup "activeServiceCount" members) =
    some status.activeServiceCount
  kvCacheHitRate : optional readF32 (lookup "kvCacheHitRate" members) =
    some status.kvCacheHitRate
  kvCacheHitRateObservedAt : optional readText (lookup "kvCacheHitRateObservedAt" members) =
    some status.kvCacheHitRateObservedAt
  tokensPerJoule : optional readF32 (lookup "tokensPerJoule" members) =
    some status.tokensPerJoule
  tokensPerJouleObservedAt : optional readText (lookup "tokensPerJouleObservedAt" members) =
    some status.tokensPerJouleObservedAt
  requestsWaiting : optional readF32 (lookup "requestsWaiting" members) =
    some status.requestsWaiting
  requestsRunning : optional readF32 (lookup "requestsRunning" members) =
    some status.requestsRunning
  spot : defaulted SpotStatus.read ⟨false, false, ""⟩ (lookup "spot" members) =
    some status.spot

theorem NodeStateStatus.read_object_iff (members : List (String × Json JsonScalar))
    (status : NodeStateStatus) :
    NodeStateStatus.read (.object members) = some status ↔ status.ReadsFrom members := by
  constructor
  · intro hread
    obtain ⟨_, hgeneration, hread⟩ := Option.bind_eq_some_iff.mp hread
    obtain ⟨_, htime, hread⟩ := Option.bind_eq_some_iff.mp hread
    obtain ⟨_, hwarmth, hread⟩ := Option.bind_eq_some_iff.mp hread
    obtain ⟨_, hutilization, hread⟩ := Option.bind_eq_some_iff.mp hread
    obtain ⟨_, hmemory, hread⟩ := Option.bind_eq_some_iff.mp hread
    obtain ⟨_, hcount, hread⟩ := Option.bind_eq_some_iff.mp hread
    obtain ⟨_, hrate, hread⟩ := Option.bind_eq_some_iff.mp hread
    obtain ⟨_, hrateAt, hread⟩ := Option.bind_eq_some_iff.mp hread
    obtain ⟨_, htokens, hread⟩ := Option.bind_eq_some_iff.mp hread
    obtain ⟨_, htokensAt, hread⟩ := Option.bind_eq_some_iff.mp hread
    obtain ⟨_, hwaiting, hread⟩ := Option.bind_eq_some_iff.mp hread
    obtain ⟨_, hrunning, hread⟩ := Option.bind_eq_some_iff.mp hread
    obtain ⟨_, hspot, hread⟩ := Option.bind_eq_some_iff.mp hread
    cases hread
    exact ⟨hgeneration, htime, hwarmth, hutilization, hmemory, hcount, hrate, hrateAt, htokens,
      htokensAt, hwaiting, hrunning, hspot⟩
  · rintro ⟨hgeneration, htime, hwarmth, hutilization, hmemory, hcount, hrate, hrateAt, htokens,
      htokensAt, hwaiting, hrunning, hspot⟩
    rw [NodeStateStatus.read]
    simp only [hgeneration, htime, hwarmth, hutilization, hmemory, hcount, hrate, hrateAt,
      htokens, htokensAt, hwaiting, hrunning, hspot, Option.bind_eq_bind, Option.bind_some]

theorem Warmth.read_debug (warmth : Warmth) :
    Warmth.read (.scalar (.text warmth.debug)) = some warmth := by
  cases warmth with
  | cold => rfl
  | warming => rfl
  | warm => rfl

/-! ## A report -/

def Pass.InRange (pass : Pass) : Prop :=
  InI64 pass.generation ∧ ∀ bytes, pass.signals.gpuMemoryUsedBytes = some bytes → InI64 bytes

namespace ReportPatch

variable (patch : ReportPatch)

/-- The fields a report does not own read as before, and the others as it has them. -/
theorem read_merged (hgeneration : InI64 patch.observedGeneration)
    (hmemory : ∀ bytes, patch.gpuMemoryUsedBytes = some bytes → InI64 bytes)
    {members : List (String × Json JsonScalar)} {status : NodeStateStatus}
    (hread : NodeStateStatus.read (.object members) = some status) :
    NodeStateStatus.read (.object (mergeMembers members (patch.members.map fun member =>
      (member.1, (member.2.map Json.scalar).getD .null)))) = some (patch.merge status) := by
  have hkeys : ((patch.members.map fun member =>
      (member.1, (member.2.map Json.scalar).getD .null)).map Prod.fst) = reporterKeys := by
    rw [List.map_map, ← patch.members_keys]
    rfl
  have hkept : ∀ key, key ∉ reporterKeys →
      lookup key (mergeMembers members (patch.members.map fun member =>
        (member.1, (member.2.map Json.scalar).getD .null))) = lookup key members := by
    intro key habsent
    exact lookup_merged_absent (hkeys ▸ (by decide : reporterKeys.Nodup)) (hkeys ▸ habsent)
  have hwritten := fun key value (hmem : (key, value) ∈ patch.members) =>
    patch.lookup_json hmem members
  have hfloat : ∀ key (found : Option F32), (key, found.map .float) ∈ patch.members →
      optional readF32 (lookup key (mergeMembers members (patch.members.map fun member =>
        (member.1, (member.2.map Json.scalar).getD .null)))) = some found := by
    intro key found hmem
    rw [hwritten key _ hmem, Option.map_map]
    exact optional_map fun _ _ => rfl
  have htext : ∀ key (found : Option String), (key, found.map .text) ∈ patch.members →
      optional readText (lookup key (mergeMembers members (patch.members.map fun member =>
        (member.1, (member.2.map Json.scalar).getD .null)))) = some found := by
    intro key found hmem
    rw [hwritten key _ hmem, Option.map_map]
    exact optional_map fun _ _ => rfl
  rw [NodeStateStatus.read_object_iff] at hread ⊢
  exact {
    observedGeneration := by
      rw [hwritten "observedGeneration" (some (.integer patch.observedGeneration))
        (by simp [ReportPatch.members])]
      exact readI64_integer hgeneration
    lastReportTime := by
      rw [hwritten "lastReportTime" (some (.text patch.lastReportTime))
        (by simp [ReportPatch.members])]
      rfl
    warmth := by
      rw [hkept "warmth" (by decide)]
      exact hread.warmth
    gpuUtilization := hfloat _ patch.gpuUtilization (by simp [ReportPatch.members])
    gpuMemoryUsedBytes := by
      rw [hwritten "gpuMemoryUsedBytes" (patch.gpuMemoryUsedBytes.map .integer)
        (by simp [ReportPatch.members]), Option.map_map]
      exact optional_map fun bytes hbytes => readI64_integer (hmemory bytes hbytes)
    activeServiceCount := by
      rw [hwritten "activeServiceCount"
        (patch.activeServiceCount.map fun count => .integer count.toInt)
        (by simp [ReportPatch.members]), Option.map_map]
      exact optional_map fun count _ => readI32_integer count
    kvCacheHitRate := hfloat _ patch.kvCacheHitRate (by simp [ReportPatch.members])
    kvCacheHitRateObservedAt :=
      htext _ patch.kvCacheHitRateObservedAt (by simp [ReportPatch.members])
    tokensPerJoule := hfloat _ patch.tokensPerJoule (by simp [ReportPatch.members])
    tokensPerJouleObservedAt :=
      htext _ patch.tokensPerJouleObservedAt (by simp [ReportPatch.members])
    requestsWaiting := hfloat _ patch.requestsWaiting (by simp [ReportPatch.members])
    requestsRunning := hfloat _ patch.requestsRunning (by simp [ReportPatch.members])
    spot := by
      rw [hkept "spot" (by decide)]
      exact hread.spot }

end ReportPatch

/-! ## The other writers -/

theorem SpotStatus.read_merged (spot : SpotStatus) (members : List (String × Json JsonScalar)) :
    SpotStatus.read (mergePatch (.object members) spot.json) = some spot := by
  have hleaf : ∀ key value, (key, value) ∈ spot.json.members → value.isLeaf = true →
      lookup key (mergeMembers members spot.json.members) = some value := by
    intro key value hmem hleaf
    refine lookup_merged_leaf ?_ hmem hleaf
    exact (by decide : ["isSpotInstance", "preemptionNoticeDetected", "preemptionNoticeTime"].Nodup)
  have hmerged : mergePatch (.object members) spot.json =
      .object (mergeMembers members spot.json.members) := by
    rw [SpotStatus.json, mergePatch]
    rfl
  rw [hmerged, SpotStatus.read,
    hleaf "isSpotInstance" (.scalar (.bool spot.isSpotInstance))
      (by simp [SpotStatus.json, Json.members]) rfl,
    hleaf "preemptionNoticeDetected" (.scalar (.bool spot.preemptionNoticeDetected))
      (by simp [SpotStatus.json, Json.members]) rfl,
    hleaf "preemptionNoticeTime" (.scalar (.text spot.preemptionNoticeTime))
      (by simp [SpotStatus.json, Json.members]) rfl]
  rfl

theorem otherPatch_read_merged (warmth : Warmth) (spot : SpotStatus)
    {members : List (String × Json JsonScalar)} {status : NodeStateStatus}
    (hread : NodeStateStatus.read (.object members) = some status) :
    NodeStateStatus.read (.object (mergeMembers members (otherPatch warmth spot).members)) =
      some { status with warmth := warmth, spot := spot } := by
  have hnodup : ((otherPatch warmth spot).members.map Prod.fst).Nodup :=
    (by decide : ["warmth", "spot"].Nodup)
  have hkept : ∀ key, key ∉ ["warmth", "spot"] →
      lookup key (mergeMembers members (otherPatch warmth spot).members) = lookup key members :=
    fun key habsent => lookup_merged_absent hnodup habsent
  rw [NodeStateStatus.read_object_iff] at hread ⊢
  exact {
    observedGeneration := by rw [hkept _ (by decide)]; exact hread.observedGeneration
    lastReportTime := by rw [hkept _ (by decide)]; exact hread.lastReportTime
    warmth := by
      have hmem : ("warmth", .scalar (.text warmth.debug)) ∈ (otherPatch warmth spot).members := by
        simp [otherPatch]
      rw [lookup_merged_leaf hnodup hmem rfl]
      exact warmth.read_debug
    gpuUtilization := by rw [hkept _ (by decide)]; exact hread.gpuUtilization
    gpuMemoryUsedBytes := by rw [hkept _ (by decide)]; exact hread.gpuMemoryUsedBytes
    activeServiceCount := by rw [hkept _ (by decide)]; exact hread.activeServiceCount
    kvCacheHitRate := by rw [hkept _ (by decide)]; exact hread.kvCacheHitRate
    kvCacheHitRateObservedAt := by
      rw [hkept _ (by decide)]
      exact hread.kvCacheHitRateObservedAt
    tokensPerJoule := by rw [hkept _ (by decide)]; exact hread.tokensPerJoule
    tokensPerJouleObservedAt := by
      rw [hkept _ (by decide)]
      exact hread.tokensPerJouleObservedAt
    requestsWaiting := by rw [hkept _ (by decide)]; exact hread.requestsWaiting
    requestsRunning := by rw [hkept _ (by decide)]; exact hread.requestsRunning
    spot := by
      have hmem : ("spot", spot.json) ∈ (otherPatch warmth spot).members := by simp [otherPatch]
      rw [SpotStatus.json] at hmem
      rw [lookup_merged_object hnodup hmem, defaulted_some]
      have hspot := spot.read_merged ((lookup "spot" members).getD .null).members
      rw [SpotStatus.json, mergePatch] at hspot
      exact hspot }

/-! ## Every run -/

/-- The object in the API server reads as the status, and the process remembers
alike. -/
structure StoredNodeState.Reads (stored : StoredNodeState) (state : ReporterState) : Prop where
  retention : stored.retention = state.retention
  status : storedStatus NodeStateStatus.read stored.json = some state.status

/-- What a reporter writes fits the integers of the status. -/
def NodeStateEvent.InRange : NodeStateEvent → Prop
  | .reporter (.report pass) => pass.InRange
  | _ => True

theorem StoredNodeState.Reads.step {stored : StoredNodeState} {state : ReporterState}
    (hreads : stored.Reads state) {event : NodeStateEvent} (hrange : event.InRange) :
    (stored.step event).Reads (event.step state) := by
  obtain ⟨hretention, hstatus⟩ := hreads
  cases event with
  | other warmth spot =>
      refine ⟨hretention, ?_⟩
      exact storedStatus_patched (fun _ _ => object_of_readStatus) NodeStateStatus.read_nil hstatus
        fun members => otherPatch_read_merged warmth spot
  | recreated =>
      refine ⟨hretention, ?_⟩
      rw [StoredNodeState.step, storedStatus, Json.members, lookup_eraseMember, if_pos rfl]
      rfl
  | reporter event =>
      cases event with
      | start => exact ⟨rfl, hstatus⟩
      | failedGet => exact ⟨hretention, hstatus⟩
      | report pass =>
          refine ⟨congrArg (fun retention : Retention =>
            retention.update pass.signals pass.measuredAt) hretention, ?_⟩
          dsimp only [StoredNodeState.step, NodeStateEvent.step, ReporterState.step]
          cases happlied : pass.applied with
          | false => exact hstatus
          | true =>
              rw [if_pos rfl, if_pos rfl, hretention]
              exact storedStatus_patched (fun _ _ => object_of_readStatus)
                NodeStateStatus.read_nil hstatus fun members =>
                  ReportPatch.read_merged _ hrange.1 hrange.2

/-- Along every run of the writers, from any object that reads, the JSON in the
API server reads as the status the modelled writers leave. -/
theorem stored_node_state_reads (events : Nat → NodeStateEvent)
    (hrange : ∀ time, (events time).InRange) {stored : StoredNodeState} {state : ReporterState}
    (hreads : stored.Reads state) (time : Nat) :
    (run StoredNodeState.step events stored time).Reads
      (run NodeStateEvent.step events state time) := by
  induction time with
  | zero => exact hreads
  | succ time ih => exact ih.step (hrange time)

namespace Sample

def writing (time : Nat) : NodeStateEvent :=
  if time % 2 = 0 then .reporter (measuring (some ⟨0x3f000000#32⟩) "instant")
  else .other .warm ⟨true, false, ""⟩

/-- From an object with a null status, the third patch is read back. -/
theorem stored_node_state_reads_sample :
    ∃ status, storedStatus NodeStateStatus.read (run StoredNodeState.step writing
        ⟨.empty, .object [("status", .null)]⟩ 3).json = some (some status) ∧
      status.warmth = .warm ∧ status.kvCacheHitRate = some ⟨0x3f000000#32⟩ := by
  have hrange : ∀ time, (writing time).InRange := by
    intro time
    rw [writing]
    split
    · exact ⟨by decide, fun bytes hbytes => by cases hbytes⟩
    · trivial
  have hreads := (stored_node_state_reads writing hrange
    (⟨rfl, rfl⟩ : StoredNodeState.Reads ⟨.empty, .object [("status", .null)]⟩ ⟨.empty, none⟩)
    3).status
  have hfinal : ∃ status, (run NodeStateEvent.step writing ⟨.empty, none⟩ 3).status = some status ∧
      status.warmth = .warm ∧ status.kvCacheHitRate = some ⟨0x3f000000#32⟩ := ⟨_, rfl, rfl, rfl⟩
  obtain ⟨status, hstatus, hfields⟩ := hfinal
  rw [hstatus] at hreads
  exact ⟨status, hreads, hfields⟩

end Sample

end VllmColdstartOperator
