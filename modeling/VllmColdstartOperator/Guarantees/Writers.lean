import VllmColdstartOperator.Foundation.MergePatch
import VllmColdstartOperator.Reporter.Report

/-!
# The writers of a node state's status

The status of a NodeState is merge-patched by writers that own disjoint fields:
the reporter its report, the others the warmth and what is under `spot`.
-/

namespace VllmColdstartOperator

open Foundation Json

inductive JsonScalar where
  | bool (value : Bool)
  | integer (value : Int)
  | float (value : F32)
  | text (value : String)
  deriving DecidableEq, Repr

/-! ## The reporter's patch -/

namespace ReportPatch

variable (patch : ReportPatch)

/-- The members of the patch in order; an absent value is a null. -/
def members : List (String × Option JsonScalar) :=
  [("observedGeneration", some (.integer patch.observedGeneration)),
    ("lastReportTime", some (.text patch.lastReportTime)),
    ("gpuUtilization", patch.gpuUtilization.map .float),
    ("gpuMemoryUsedBytes", patch.gpuMemoryUsedBytes.map .integer),
    ("activeServiceCount", patch.activeServiceCount.map fun count => .integer count.toInt),
    ("kvCacheHitRate", patch.kvCacheHitRate.map .float),
    ("kvCacheHitRateObservedAt", patch.kvCacheHitRateObservedAt.map .text),
    ("tokensPerJoule", patch.tokensPerJoule.map .float),
    ("tokensPerJouleObservedAt", patch.tokensPerJouleObservedAt.map .text),
    ("requestsWaiting", patch.requestsWaiting.map .float),
    ("requestsRunning", patch.requestsRunning.map .float)]

def json : Json JsonScalar :=
  .object [("status", .object (patch.members.map fun member =>
    (member.1, (member.2.map Json.scalar).getD .null)))]

end ReportPatch

def reporterKeys : List String :=
  ["observedGeneration", "lastReportTime", "gpuUtilization", "gpuMemoryUsedBytes",
    "activeServiceCount", "kvCacheHitRate", "kvCacheHitRateObservedAt", "tokensPerJoule",
    "tokensPerJouleObservedAt", "requestsWaiting", "requestsRunning"]

def fieldKeys : List String := reporterKeys.insertIdx 2 "warmth" ++ ["spot"]

theorem fieldKeys_split :
    ∀ key ∈ fieldKeys, key ∈ reporterKeys ∨ key = "warmth" ∨ key = "spot" := by
  decide

theorem ReportPatch.members_keys (patch : ReportPatch) :
    patch.members.map Prod.fst = reporterKeys := rfl

/-! ## The other writers -/

/-- A patch of the warmth and of what is under `spot`. -/
structure OtherPatch where
  members : List (String × Json JsonScalar)
  owned : ∀ member ∈ members, member.1 = "warmth" ∨ member.1 = "spot"

def OtherPatch.json (patch : OtherPatch) : Json JsonScalar :=
  .object [("status", .object patch.members)]

inductive NodeStateWrite where
  | report (patch : ReportPatch)
  | other (patch : OtherPatch)

namespace NodeStateWrite

def json : NodeStateWrite → Json JsonScalar
  | report patch => patch.json
  | other patch => patch.json

def isReport : NodeStateWrite → Bool
  | report _ => true
  | other _ => false

end NodeStateWrite

def writeStatus (state : Json JsonScalar) (writes : List NodeStateWrite) : Json JsonScalar :=
  mergeAll NodeStateWrite.json state writes

/-! ## What each writer touches -/

theorem ReportPatch.touches_field (patch : ReportPatch) {key : String}
    (hfree : key ∉ reporterKeys) (path : List String) :
    touches ("status" :: key :: path) patch.json = false := by
  rw [← patch.members_keys, List.mem_map] at hfree
  simp only [json, touches, List.any_cons, List.any_nil, Bool.or_false, Bool.and_eq_false_iff,
    List.any_map, List.any_eq_false, Function.comp_apply]
  refine .inr fun member hmem => ?_
  have hne : member.1 ≠ key := fun heq => hfree ⟨member, hmem, heq⟩
  simp [hne]

theorem ReportPatch.touches_json (patch : ReportPatch) {path : List String} (hpath : path ≠ [])
    (hstatus : path ≠ ["status"]) (hfree : ∀ key ∈ reporterKeys, ¬ ["status", key] <+: path) :
    touches path patch.json = false := by
  cases path with
  | nil => exact absurd rfl hpath
  | cons field path =>
      by_cases hfield : field = "status"
      · subst hfield
        cases path with
        | nil => exact absurd rfl hstatus
        | cons key path => exact patch.touches_field (fun hmem => hfree key hmem ⟨path, rfl⟩) path
      · simp [json, touches, Ne.symm hfield]

theorem OtherPatch.touches_json (patch : OtherPatch) {key : String} (hwarmth : key ≠ "warmth")
    (hspot : key ≠ "spot") (path : List String) :
    touches ("status" :: key :: path) patch.json = false := by
  simp only [json, touches, List.any_cons, List.any_nil, Bool.or_false, Bool.and_eq_false_iff,
    List.any_eq_false]
  refine .inr fun member hmem => ?_
  rcases patch.owned member hmem with hkey | hkey
  · simp [hkey, Ne.symm hwarmth]
  · simp [hkey, Ne.symm hspot]

/-! ## What a report writes -/

namespace ReportPatch

variable (patch : ReportPatch)

theorem lookup_json {key : String} {value : Option JsonScalar}
    (hmem : (key, value) ∈ patch.members) (members : List (String × Json JsonScalar)) :
    lookup key (mergeMembers members (patch.members.map fun member =>
      (member.1, (member.2.map Json.scalar).getD .null))) = value.map .scalar := by
  have hkeys : ((patch.members.map fun member =>
      (member.1, (member.2.map Json.scalar).getD .null)).map Prod.fst) = reporterKeys := by
    rw [List.map_map, ← patch.members_keys]
    rfl
  have hnodup := hkeys ▸ (by decide : reporterKeys.Nodup)
  rw [lookup_mergeMembers hnodup, lookup_eq_some hnodup (List.mem_map.mpr ⟨_, hmem, rfl⟩)]
  cases value with
  | none => simp [isNull]
  | some value => simp [isNull, mergePatch]

theorem at?_mergePatch {key : String} {value : Option JsonScalar}
    (hmem : (key, value) ∈ patch.members) (state : Json JsonScalar) :
    at? ["status", key] (mergePatch state patch.json) = value.map .scalar := by
  rw [json, at?_mergePatch_nested, mergePatch, at?_object, patch.lookup_json hmem]
  cases value with
  | none => rfl
  | some value => rfl

end ReportPatch

/-! ## The stored status -/

def SpotStatus.json (spot : SpotStatus) : Json JsonScalar :=
  .object [("isSpotInstance", .scalar (.bool spot.isSpotInstance)),
    ("preemptionNoticeDetected", .scalar (.bool spot.preemptionNoticeDetected)),
    ("preemptionNoticeTime", .scalar (.text spot.preemptionNoticeTime))]

namespace NodeStateStatus

variable (status : NodeStateStatus)

/-- The fields by their keys; an absent one is skipped. -/
def fields : List (String × Option (Json JsonScalar)) :=
  [("observedGeneration", some (.scalar (.integer status.observedGeneration))),
    ("lastReportTime", some (.scalar (.text status.lastReportTime))),
    ("warmth", some (.scalar (.text status.warmth.debug))),
    ("gpuUtilization", status.gpuUtilization.map fun value => .scalar (.float value)),
    ("gpuMemoryUsedBytes", status.gpuMemoryUsedBytes.map fun bytes => .scalar (.integer bytes)),
    ("activeServiceCount",
      status.activeServiceCount.map fun count => .scalar (.integer count.toInt)),
    ("kvCacheHitRate", status.kvCacheHitRate.map fun value => .scalar (.float value)),
    ("kvCacheHitRateObservedAt",
      status.kvCacheHitRateObservedAt.map fun instant => .scalar (.text instant)),
    ("tokensPerJoule", status.tokensPerJoule.map fun value => .scalar (.float value)),
    ("tokensPerJouleObservedAt",
      status.tokensPerJouleObservedAt.map fun instant => .scalar (.text instant)),
    ("requestsWaiting", status.requestsWaiting.map fun value => .scalar (.float value)),
    ("requestsRunning", status.requestsRunning.map fun value => .scalar (.float value)),
    ("spot", some status.spot.json)]

def json : Json JsonScalar :=
  .object (present status.fields)

theorem fields_nodup : (status.fields.map Prod.fst).Nodup :=
  (by decide : fieldKeys.Nodup)

end NodeStateStatus

def stored (status : NodeStateStatus) : Json JsonScalar := .object [("status", status.json)]

theorem at?_stored (status : NodeStateStatus) (key : String) :
    at? ["status", key] (stored status) = lookup key (present status.fields) := by
  rw [stored, at?_object]
  simp [lookup, at?, NodeStateStatus.json, Json.members]

/-- The merge of a report into a status is the merge patch of its JSON. -/
theorem ReportPatch.merge_stored (patch : ReportPatch) (status : NodeStateStatus) (key : String) :
    at? ["status", key] (mergePatch (stored status) patch.json) =
      at? ["status", key] (stored (patch.merge status)) := by
  rw [at?_stored]
  by_cases hreported : key ∈ reporterKeys
  · rw [← patch.members_keys] at hreported
    obtain ⟨⟨key, value⟩, hmem, rfl⟩ := List.mem_map.mp hreported
    have hfield : (key, value.map Json.scalar) ∈ (patch.merge status).fields := by
      simp only [members, List.mem_cons, List.not_mem_nil, or_false, Prod.mk.injEq] at hmem
      rcases hmem with ⟨rfl, rfl⟩ | ⟨rfl, rfl⟩ | ⟨rfl, rfl⟩ | ⟨rfl, rfl⟩ | ⟨rfl, rfl⟩ | ⟨rfl, rfl⟩ |
        ⟨rfl, rfl⟩ | ⟨rfl, rfl⟩ | ⟨rfl, rfl⟩ | ⟨rfl, rfl⟩ | ⟨rfl, rfl⟩ <;>
        simp [NodeStateStatus.fields, ReportPatch.merge, Function.comp_def]
    rw [patch.at?_mergePatch hmem, lookup_present (NodeStateStatus.fields_nodup _) hfield]
  · rw [at?_mergePatch_of_free (patch.touches_field hreported []), at?_stored]
    by_cases hothers : key = "warmth" ∨ key = "spot"
    · -- the merge copies the fields of the other writers
      obtain ⟨found, hbefore, hafter⟩ : ∃ found, (key, found) ∈ status.fields ∧
          (key, found) ∈ (patch.merge status).fields := by
        rcases hothers with rfl | rfl
        · exact ⟨some (.scalar (.text status.warmth.debug)), by simp [NodeStateStatus.fields],
            by simp [NodeStateStatus.fields, ReportPatch.merge]⟩
        · exact ⟨some status.spot.json, by simp [NodeStateStatus.fields],
            by simp [NodeStateStatus.fields, ReportPatch.merge]⟩
      rw [lookup_present status.fields_nodup hbefore,
        lookup_present (NodeStateStatus.fields_nodup _) hafter]
    · have habsent (status : NodeStateStatus) : lookup key (present status.fields) = none := by
        refine lookup_eq_none fun hmem => ?_
        rcases fieldKeys_split key (mem_present_keys hmem) with hkey | hkey
        · exact hreported hkey
        · exact hothers hkey
      rw [habsent, habsent]

/-- Whatever the order of the writes, the warmth and what is under `spot` are
what the other writers alone make them, and the reporter's fields what the
reports alone do.  A report deletes the keys of its absent signals, replaces its
other keys and leaves every path that is not at or below one of them. -/
theorem status_writers_keep_apart (state : Json JsonScalar) (writes : List NodeStateWrite) :
    (∀ key, key = "warmth" ∨ key = "spot" → ∀ path : List String,
      at? ("status" :: key :: path) (writeStatus state writes) =
        at? ("status" :: key :: path)
          (writeStatus state (writes.filter fun write => !write.isReport))) ∧
    (∀ key ∈ reporterKeys, ∀ path : List String,
      at? ("status" :: key :: path) (writeStatus state writes) =
        at? ("status" :: key :: path) (writeStatus state (writes.filter NodeStateWrite.isReport))) ∧
    ∀ patch : ReportPatch,
      (∀ key value, (key, value) ∈ patch.members →
        at? ["status", key] (mergePatch state patch.json) = value.map .scalar) ∧
      ∀ path : List String, path ≠ [] → path ≠ ["status"] →
        (∀ key ∈ reporterKeys, ¬ ["status", key] <+: path) →
        at? path (mergePatch state patch.json) = at? path state := by
  refine ⟨?_, ?_, ?_⟩
  · intro key hkey path
    refine at?_mergeAll_filter _ _ ?_ writes rfl
    intro write hreport
    cases write with
    | other patch => simp [NodeStateWrite.isReport] at hreport
    | report patch =>
        refine patch.touches_field ?_ path
        rcases hkey with rfl | rfl
        · decide
        · decide
  · intro key hkey path
    refine at?_mergeAll_filter _ _ ?_ writes rfl
    intro write hother
    cases write with
    | report patch => simp [NodeStateWrite.isReport] at hother
    | other patch =>
        refine patch.touches_json ?_ ?_ path
        · rintro rfl
          exact absurd hkey (by decide)
        · rintro rfl
          exact absurd hkey (by decide)
  · intro patch
    refine ⟨fun key value hmem => patch.at?_mergePatch hmem state, ?_⟩
    intro path hpath hstatus hfree
    exact at?_mergePatch_of_free (patch.touches_json hpath hstatus hfree) state

end VllmColdstartOperator
