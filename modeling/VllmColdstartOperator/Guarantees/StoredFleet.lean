import VllmColdstartOperator.Foundation.Runs
import VllmColdstartOperator.Stored.FleetStatus

/-!
# The stored fleet status reads as the modelled one

The status makes a round trip through the API server at every reconcile.  All of
it comes back but the floats of a record that JSON cannot hold, and these decide
nothing: the JSON under any run of reconciles, cut or complete, reads as the
status of the modelled world up to such floats, and the children are the same.
-/

namespace VllmColdstartOperator

open Foundation Json

/-! ## What comes back -/

def PlacementDecisionInputs.stored (inputs : PlacementDecisionInputs) :
    PlacementDecisionInputs :=
  { inputs with
    tokensPerJoule := inputs.tokensPerJoule.bind jsonNumber
    kvCacheHitRate := inputs.kvCacheHitRate.bind jsonNumber
    gpuUtilization := inputs.gpuUtilization.bind jsonNumber }

def PlacementStatus.stored (placement : PlacementStatus) : PlacementStatus :=
  { placement with decidedOn := placement.decidedOn.map PlacementDecisionInputs.stored }

def FleetServiceStatus.stored (status : FleetServiceStatus) : FleetServiceStatus :=
  { status with placements := status.placements.map PlacementStatus.stored }

def StatusPatch.stored : StatusPatch → StatusPatch
  | .full status => .full status.stored
  | .message text selector first => .message text selector first

def Call.stored : Call → Call
  | .patchStatus patch => .patchStatus patch.stored
  | .applyChild child => .applyChild child
  | .deleteChild name => .deleteChild name

theorem jsonNumber_bind (value : Option F32) :
    (value.bind jsonNumber).bind jsonNumber = value.bind jsonNumber := by
  cases value with
  | none => rfl
  | some value =>
      cases hfinite : value.isFinite with
      | false => simp [jsonNumber, hfinite]
      | true => simp [jsonNumber, hfinite]

theorem PlacementDecisionInputs.stored_stored (inputs : PlacementDecisionInputs) :
    inputs.stored.stored = inputs.stored := by
  simp only [stored, jsonNumber_bind]

theorem PlacementStatus.stored_stored (placement : PlacementStatus) :
    placement.stored.stored = placement.stored := by
  simp [stored, Function.comp_def, PlacementDecisionInputs.stored_stored]

theorem FleetServiceStatus.stored_stored (status : FleetServiceStatus) :
    status.stored.stored = status.stored := by
  simp [stored, Function.comp_def, PlacementStatus.stored_stored]

theorem StatusPatch.stored_stored (patch : StatusPatch) : patch.stored.stored = patch.stored := by
  cases patch with
  | full status => exact congrArg StatusPatch.full status.stored_stored
  | message text selector first => rfl

theorem StatusPatch.merge_stored (patch : StatusPatch) (status : Option FleetServiceStatus) :
    (patch.merge status).stored =
      patch.stored.merge (status.map FleetServiceStatus.stored) := by
  cases patch with
  | full status => rfl
  | message text selector first => cases status <;> cases first <;> rfl

/-! ## Records and placements -/

section Scalars

theorem optional_text (found : Option String) :
    optional readText (found.map textJson) = some found :=
  optional_map fun _ _ => rfl

theorem optional_i32 (found : Option Int32) :
    optional readI32 (found.map i32Json) = some found :=
  optional_map fun value _ => readI32_integer value

theorem optional_float (found : Option F32) :
    optional readF32 (found.map floatJson) = some (found.bind jsonNumber) := by
  cases found with
  | none => rfl
  | some value =>
      cases hfinite : value.isFinite with
      | false => simp [floatJson, jsonNumber, hfinite]
      | true => simp [floatJson, jsonNumber, hfinite, readF32]

end Scalars

theorem PlacementDecisionInputs.read_json (inputs : PlacementDecisionInputs) :
    read inputs.json = some inputs.stored := by
  have hlookup : ∀ key found, (key, found) ∈ inputs.fields →
      lookup key (present inputs.fields) = found := fun key found hmem =>
    lookup_present (by decide : ["strategy", "warmth", "tokensPerJoule", "kvCacheHitRate",
      "gpuUtilization", "activeServiceCount"].Nodup) hmem
  rw [json, read, hlookup "strategy" (some (textJson inputs.strategy)) (by simp [fields]),
    hlookup "warmth" (inputs.warmth.map textJson) (by simp [fields]), optional_text,
    hlookup "tokensPerJoule" (inputs.tokensPerJoule.map floatJson) (by simp [fields]),
    hlookup "kvCacheHitRate" (inputs.kvCacheHitRate.map floatJson) (by simp [fields]),
    hlookup "gpuUtilization" (inputs.gpuUtilization.map floatJson) (by simp [fields]),
    hlookup "activeServiceCount" (inputs.activeServiceCount.map i32Json) (by simp [fields]),
    optional_float, optional_float, optional_float, optional_i32]
  rfl

theorem PlacementStatus.read_json (placement : PlacementStatus) :
    read placement.json = some placement.stored := by
  have hlookup : ∀ key found, (key, found) ∈ placement.fields →
      lookup key (present placement.fields) = found := fun key found hmem =>
    lookup_present (by decide : ["vllmServiceRef", "nodeRef", "phase", "lastTransitionTime",
      "stableSince", "surplusReconciles", "decidedOn"].Nodup) hmem
  have hdecided : optional PlacementDecisionInputs.read
      (placement.decidedOn.map PlacementDecisionInputs.json) =
        some (placement.decidedOn.map PlacementDecisionInputs.stored) := by
    cases placement.decidedOn with
    | none => rfl
    | some inputs =>
        have hread := inputs.read_json
        rw [PlacementDecisionInputs.json] at hread
        rw [Option.map_some, PlacementDecisionInputs.json, optional_object, hread]
        rfl
  rw [json, read,
    hlookup "vllmServiceRef" (some (textJson placement.vllmServiceRef)) (by simp [fields]),
    hlookup "nodeRef" (some (textJson placement.nodeRef)) (by simp [fields]),
    hlookup "phase" (some (textJson placement.phase)) (by simp [fields]),
    hlookup "lastTransitionTime" (some (textJson placement.lastTransitionTime)) (by simp [fields]),
    hlookup "stableSince" (some (textJson placement.stableSince)) (by simp [fields]),
    hlookup "surplusReconciles" (some (i32Json placement.surplusReconciles)) (by simp [fields]),
    hlookup "decidedOn" (placement.decidedOn.map PlacementDecisionInputs.json) (by simp [fields]),
    hdecided, defaulted_some, defaulted_some, i32Json, readI32_integer]
  rfl

/-! ## The status and its patches -/

/-- What stands at each key reads as the field of that name. -/
structure FleetServiceStatus.ReadsFrom (members : List (String × Json JsonScalar))
    (status : FleetServiceStatus) : Prop where
  phase : defaulted readText "" (lookup "phase" members) = some status.phase
  readyReplicas : defaulted readI32 0 (lookup "readyReplicas" members) =
    some status.readyReplicas
  desiredReplicas : defaulted readI32 0 (lookup "desiredReplicas" members) =
    some status.desiredReplicas
  replicas : defaulted readI32 0 (lookup "replicas" members) = some status.replicas
  selector : defaulted readText "" (lookup "selector" members) = some status.selector
  warmingReplicas : defaulted readI32 0 (lookup "warmingReplicas" members) =
    some status.warmingReplicas
  activeReschedules : defaulted readI32 0 (lookup "activeReschedules" members) =
    some status.activeReschedules
  placements : defaulted (readItems PlacementStatus.read) [] (lookup "placements" members) =
    some status.placements
  message : defaulted readText "" (lookup "message" members) = some status.message

theorem FleetServiceStatus.read_object_iff (members : List (String × Json JsonScalar))
    (status : FleetServiceStatus) :
    FleetServiceStatus.read (.object members) = some status ↔ status.ReadsFrom members := by
  constructor
  · intro hread
    obtain ⟨_, hphase, hread⟩ := Option.bind_eq_some_iff.mp hread
    obtain ⟨_, hready, hread⟩ := Option.bind_eq_some_iff.mp hread
    obtain ⟨_, hdesired, hread⟩ := Option.bind_eq_some_iff.mp hread
    obtain ⟨_, hreplicas, hread⟩ := Option.bind_eq_some_iff.mp hread
    obtain ⟨_, hselector, hread⟩ := Option.bind_eq_some_iff.mp hread
    obtain ⟨_, hwarming, hread⟩ := Option.bind_eq_some_iff.mp hread
    obtain ⟨_, hmoves, hread⟩ := Option.bind_eq_some_iff.mp hread
    obtain ⟨_, hplacements, hread⟩ := Option.bind_eq_some_iff.mp hread
    obtain ⟨_, hmessage, hread⟩ := Option.bind_eq_some_iff.mp hread
    cases hread
    exact ⟨hphase, hready, hdesired, hreplicas, hselector, hwarming, hmoves, hplacements, hmessage⟩
  · rintro ⟨hphase, hready, hdesired, hreplicas, hselector, hwarming, hmoves, hplacements,
      hmessage⟩
    rw [FleetServiceStatus.read]
    simp only [hphase, hready, hdesired, hreplicas, hselector, hwarming, hmoves, hplacements,
      hmessage, Option.bind_eq_bind, Option.bind_some]

theorem object_of_readFleet {json : Json JsonScalar} {status : FleetServiceStatus}
    (hread : FleetServiceStatus.read json = some status) : json = .object json.members := by
  cases json with
  | object members => rfl
  | null => cases hread
  | scalar value => cases hread
  | array items => cases hread

theorem FleetServiceStatus.read_merged (status : FleetServiceStatus)
    (members : List (String × Json JsonScalar)) :
    read (.object (mergeMembers members status.members)) = some status.stored := by
  have hnodup : (status.members.map Prod.fst).Nodup :=
    (by decide : ["phase", "readyReplicas", "desiredReplicas", "replicas", "selector",
      "warmingReplicas", "activeReschedules", "placements", "message"].Nodup)
  have hleaf : ∀ key value, (key, value) ∈ status.members → value.isLeaf = true →
      lookup key (mergeMembers members status.members) = some value :=
    fun key value hmem hleaf => lookup_merged_leaf hnodup hmem hleaf
  have htext : ∀ key value, (key, textJson value) ∈ status.members →
      defaulted readText "" (lookup key (mergeMembers members status.members)) = some value := by
    intro key value hmem
    rw [hleaf key _ hmem rfl]
    rfl
  have hinteger : ∀ key value, (key, i32Json value) ∈ status.members →
      defaulted readI32 0 (lookup key (mergeMembers members status.members)) = some value := by
    intro key value hmem
    rw [hleaf key _ hmem rfl]
    exact readI32_integer value
  rw [FleetServiceStatus.read_object_iff]
  exact {
    phase := htext _ status.phase (by simp [FleetServiceStatus.members])
    readyReplicas := hinteger _ status.readyReplicas (by simp [FleetServiceStatus.members])
    desiredReplicas := hinteger _ status.desiredReplicas (by simp [FleetServiceStatus.members])
    replicas := hinteger _ status.replicas (by simp [FleetServiceStatus.members])
    selector := htext _ status.selector (by simp [FleetServiceStatus.members])
    warmingReplicas := hinteger _ status.warmingReplicas (by simp [FleetServiceStatus.members])
    activeReschedules :=
      hinteger _ status.activeReschedules (by simp [FleetServiceStatus.members])
    placements := by
      rw [hleaf "placements" (.array (status.placements.map PlacementStatus.json))
        (by simp [FleetServiceStatus.members]) rfl]
      exact readItems_map PlacementStatus.read_json status.placements
    message := htext _ status.message (by simp [FleetServiceStatus.members]) }

theorem FleetServiceStatus.read_extended {members patch : List (String × Json JsonScalar)}
    {status : FleetServiceStatus} (hread : read (.object members) = some status)
    (hothers : ∀ key ∈ FleetServiceStatus.empty.members.map Prod.fst,
      key ∉ patch.map Prod.fst) :
    read (.object (mergeMembers members patch)) = some status := by
  have hkept : ∀ key ∈ FleetServiceStatus.empty.members.map Prod.fst,
      lookup key (mergeMembers members patch) = lookup key members := by
    intro key hkey
    have hfree : touches [key] (.object patch) = false := by
      simp only [touches, List.any_eq_false, Bool.and_true, decide_eq_true_eq]
      rintro member hmem rfl
      exact hothers member.1 hkey (List.mem_map_of_mem hmem)
    have hsame := at?_mergePatch_of_free hfree (.object members)
    simpa [at?, mergePatch, Json.members] using hsame
  rw [FleetServiceStatus.read_object_iff] at hread ⊢
  exact {
    phase := by rw [hkept _ (by simp [FleetServiceStatus.members])]; exact hread.phase
    readyReplicas := by
      rw [hkept _ (by simp [FleetServiceStatus.members])]; exact hread.readyReplicas
    desiredReplicas := by
      rw [hkept _ (by simp [FleetServiceStatus.members])]; exact hread.desiredReplicas
    replicas := by rw [hkept _ (by simp [FleetServiceStatus.members])]; exact hread.replicas
    selector := by rw [hkept _ (by simp [FleetServiceStatus.members])]; exact hread.selector
    warmingReplicas := by
      rw [hkept _ (by simp [FleetServiceStatus.members])]; exact hread.warmingReplicas
    activeReschedules := by
      rw [hkept _ (by simp [FleetServiceStatus.members])]; exact hread.activeReschedules
    placements := by rw [hkept _ (by simp [FleetServiceStatus.members])]; exact hread.placements
    message := by rw [hkept _ (by simp [FleetServiceStatus.members])]; exact hread.message }

theorem StatusPatch.read_merged_message (text selector : String)
    (first : Option (String × Int32)) {members : List (String × Json JsonScalar)}
    {status : Option FleetServiceStatus}
    (hread : FleetServiceStatus.read (.object members) = some (status.getD .empty)) :
    FleetServiceStatus.read
        (.object (mergeMembers members (StatusPatch.message text selector first).members)) =
      some ((StatusPatch.message text selector first).merge status) := by
  have hnodup : ((StatusPatch.message text selector first).members.map Prod.fst).Nodup := by
    cases first with
    | none => exact (by decide : ["message", "selector"].Nodup)
    | some first =>
        exact (by decide : ["message", "selector", "phase", "desiredReplicas"].Nodup)
  have hkept : ∀ key, key ∉ ["message", "selector", "phase", "desiredReplicas"] →
      lookup key (mergeMembers members (StatusPatch.message text selector first).members) =
        lookup key members := by
    intro key habsent
    refine lookup_merged_absent hnodup fun hmem => habsent ?_
    cases first with
    | none => exact List.mem_append_left ["phase", "desiredReplicas"] hmem
    | some first => exact hmem
  have hmessage := @lookup_merged_leaf _ _ members "message" hnodup (textJson text)
    (by simp [StatusPatch.members]) rfl
  have hselector := @lookup_merged_leaf _ _ members "selector" hnodup (textJson selector)
    (by simp [StatusPatch.members]) rfl
  rw [FleetServiceStatus.read_object_iff] at hread ⊢
  cases first with
  | none =>
      have hphase := @lookup_merged_absent _ _ members "phase" hnodup
        (by simp [StatusPatch.members])
      have hdesired := @lookup_merged_absent _ _ members "desiredReplicas" hnodup
        (by simp [StatusPatch.members])
      exact {
        phase := by rw [hphase]; exact hread.phase
        readyReplicas := by rw [hkept _ (by decide)]; exact hread.readyReplicas
        desiredReplicas := by rw [hdesired]; exact hread.desiredReplicas
        replicas := by rw [hkept _ (by decide)]; exact hread.replicas
        selector := by rw [hselector]; rfl
        warmingReplicas := by rw [hkept _ (by decide)]; exact hread.warmingReplicas
        activeReschedules := by rw [hkept _ (by decide)]; exact hread.activeReschedules
        placements := by rw [hkept _ (by decide)]; exact hread.placements
        message := by rw [hmessage]; rfl }
  | some first =>
      have hphase := @lookup_merged_leaf _ _ members "phase" hnodup (textJson first.1)
        (by simp [StatusPatch.members]) rfl
      have hdesired := @lookup_merged_leaf _ _ members "desiredReplicas" hnodup (i32Json first.2)
        (by simp [StatusPatch.members]) rfl
      exact {
        phase := by rw [hphase]; rfl
        readyReplicas := by rw [hkept _ (by decide)]; exact hread.readyReplicas
        desiredReplicas := by rw [hdesired]; exact readI32_integer first.2
        replicas := by rw [hkept _ (by decide)]; exact hread.replicas
        selector := by rw [hselector]; rfl
        warmingReplicas := by rw [hkept _ (by decide)]; exact hread.warmingReplicas
        activeReschedules := by rw [hkept _ (by decide)]; exact hread.activeReschedules
        placements := by rw [hkept _ (by decide)]; exact hread.placements
        message := by rw [hmessage]; rfl }

theorem StatusPatch.read_merged (patch : StatusPatch) {members : List (String × Json JsonScalar)}
    {status : Option FleetServiceStatus}
    (hread : FleetServiceStatus.read (.object members) = some (status.getD .empty)) :
    FleetServiceStatus.read (.object (mergeMembers members patch.members)) =
      some (patch.stored.merge status) := by
  cases patch with
  | full written => exact written.read_merged members
  | message text selector first => exact StatusPatch.read_merged_message text selector first hread

theorem StatusPatch.read_patched (patch : StatusPatch) {json : Json JsonScalar}
    {status : Option FleetServiceStatus}
    (hstatus : storedStatus FleetServiceStatus.read json = some status) :
    storedStatus FleetServiceStatus.read (mergePatch json patch.json) =
      some (some (patch.stored.merge status)) := by
  exact storedStatus_patched (fun _ _ => object_of_readFleet)
    (rfl : FleetServiceStatus.read (.object []) = some .empty) hstatus
      fun members hread => patch.read_merged hread

/-! ## What is lost decides nothing -/

namespace ReconcileInput

variable (input : ReconcileInput)

/-- The reconcile that reads the status as it comes back. -/
def asStored : ReconcileInput :=
  { input with
    fleet := { input.fleet with status := input.fleet.status.map FleetServiceStatus.stored } }

theorem asStored_placements :
    input.asStored.fleet.placements = input.fleet.placements.map PlacementStatus.stored := by
  unfold FleetService.placements asStored
  dsimp only
  cases input.fleet.status with
  | none => rfl
  | some status => rfl

theorem asStored_inFlightMoves : input.asStored.inFlightMoves = input.inFlightMoves := by
  rw [inFlightMoves, asStored_placements, List.countP_map]
  rfl

theorem asStored_preemptionPass : input.asStored.preemptionPass = input.preemptionPass := by
  rw [preemptionPass, budget, asStored_inFlightMoves]
  rfl

theorem asStored_slotNodes : input.asStored.slotNodes = input.slotNodes := by
  rw [slotNodes, moved, asStored_preemptionPass]
  rfl

theorem asStored_prevPhase : input.asStored.prevPhase = input.prevPhase := by
  rw [prevPhase, asStored_placements, List.map_map]
  rfl

theorem asStored_prevSurplus : input.asStored.prevSurplus = input.prevSurplus := by
  rw [prevSurplus, asStored_placements, List.map_map]
  rfl

theorem asStored_prevDecided (name : String) :
    input.asStored.prevDecided[name]? =
      (input.prevDecided[name]?).map PlacementDecisionInputs.stored := by
  rw [prevDecided, asStored_placements, prevDecided, ← BTreeMap.lookup_collect_map,
    List.map_filterMap, List.filterMap_map]
  congr 2
  refine List.filterMap_congr fun placement _ => ?_
  rw [Function.comp_apply, PlacementStatus.stored]
  cases placement.decidedOn with
  | none => rfl
  | some decided => rfl

theorem asStored_advancedPhase (index : Nat) (preemption : Bool) :
    input.asStored.advancedPhase index preemption = input.advancedPhase index preemption := by
  rw [advancedPhase, asStored_prevPhase]
  rfl

theorem asStored_appliedPlacement (slot : Nat × String) :
    (input.asStored.appliedPlacement slot).stored = (input.appliedPlacement slot).stored := by
  have hdecided : ∀ (found new : Option PlacementDecisionInputs),
      ((found.map PlacementDecisionInputs.stored).or new).map PlacementDecisionInputs.stored =
        (found.or new).map PlacementDecisionInputs.stored := by
    intro found new
    cases found with
    | none => rfl
    | some found => simp [PlacementDecisionInputs.stored_stored]
  unfold appliedPlacement
  dsimp only
  rw [asStored_advancedPhase, preemptedSlots, asStored_preemptionPass,
    show input.asStored.fleet.name = input.fleet.name from rfl, asStored_prevDecided]
  unfold PlacementStatus.stored
  dsimp only
  rw [hdecided]
  rfl

theorem asStored_surplusOutcome (index : Nat) :
    input.asStored.surplusOutcome index = input.surplusOutcome index := by
  rw [surplusOutcome, asStored_prevSurplus]
  rfl

theorem asStored_heldPlacement (slot : Nat × String) :
    (input.asStored.heldPlacement slot).stored = (input.heldPlacement slot).stored := by
  unfold heldPlacement
  dsimp only
  rw [asStored_advancedPhase, asStored_surplusOutcome,
    show input.asStored.fleet.name = input.fleet.name from rfl, asStored_prevDecided]
  unfold PlacementStatus.stored
  dsimp only
  rw [Option.map_map, Option.map_congr fun inputs _ => inputs.stored_stored]

theorem placements_stored :
    input.placements.map PlacementStatus.stored =
      ((input.slotNodes.map fun slot => (input.appliedPlacement slot).stored) ++
        (input.heldSlots.map fun slot => (input.heldPlacement slot).stored)).insertionSort
          fun left right => slotKey left ≤ slotKey right := by
  have hsort : ∀ placements : List PlacementStatus,
      (placements.insertionSort fun left right => slotKey left ≤ slotKey right).map
        PlacementStatus.stored =
      (placements.map PlacementStatus.stored).insertionSort
        fun left right => slotKey left ≤ slotKey right :=
    fun placements => List.map_insertionSort _ _ _ placements fun _ _ _ _ => Iff.rfl
  rw [placements, hsort, List.map_append, List.map_map, List.map_map]
  rfl

theorem asStored_heldSlots : input.asStored.heldSlots = input.heldSlots :=
  List.filter_congr fun slot _ => by rw [asStored_surplusOutcome]

theorem asStored_placements_stored :
    input.asStored.placements.map PlacementStatus.stored =
      input.placements.map PlacementStatus.stored := by
  rw [placements_stored, placements_stored, asStored_slotNodes, asStored_heldSlots]
  simp only [asStored_appliedPlacement, asStored_heldPlacement]

theorem countP_stored {test : PlacementStatus → Bool}
    (htest : ∀ placement, test placement.stored = test placement)
    (placements : List PlacementStatus) :
    placements.countP test = (placements.map PlacementStatus.stored).countP test := by
  rw [List.countP_map]
  exact List.countP_congr fun placement _ => by rw [Function.comp_apply, htest]

theorem any_stored {test : PlacementStatus → Bool}
    (htest : ∀ placement, test placement.stored = test placement)
    (placements : List PlacementStatus) :
    placements.any test = (placements.map PlacementStatus.stored).any test := by
  rw [List.any_map]
  congr 1
  funext placement
  exact (htest placement).symm

theorem asStored_fullStatus : input.asStored.fullStatus.stored = input.fullStatus.stored := by
  have hplacements := input.asStored_placements_stored
  have hcount : ∀ {test : PlacementStatus → Bool},
      (∀ placement, test placement.stored = test placement) →
      input.asStored.placements.countP test = input.placements.countP test := by
    intro test htest
    rw [countP_stored htest, hplacements, ← countP_stored htest]
  have hready : input.asStored.readyReplicas = input.readyReplicas := hcount fun _ => rfl
  have hwarming : input.asStored.warmingReplicas = input.warmingReplicas := hcount fun _ => rfl
  have hmoves : input.asStored.activeReschedules = input.activeReschedules :=
    hcount fun _ => rfl
  have hlength : input.asStored.placements.length = input.placements.length := by
    have hlengths := congrArg List.length hplacements
    rwa [List.length_map, List.length_map] at hlengths
  have hhold : input.asStored.drainAndHold = input.drainAndHold := by
    rw [drainAndHold, any_stored, hplacements, ← any_stored]
    · rfl
    · exact fun _ => rfl
    · exact fun _ => rfl
  rw [fullStatus, hready, hwarming, hmoves, hlength, hhold, FleetServiceStatus.stored, hplacements]
  rfl

theorem asStored_messagePatch (text : String) :
    input.asStored.messagePatch text = input.messagePatch text := by
  unfold messagePatch asStored
  dsimp only
  cases input.fleet.status with
  | none => rfl
  | some status => rfl

theorem asStored_applyCalls : input.asStored.applyCalls = input.applyCalls := by
  rw [applyCalls, asStored_slotNodes]
  rfl

theorem asStored_deleteCalls : input.asStored.deleteCalls = input.deleteCalls := by
  have hremoved : input.asStored.removedSlots = input.removedSlots :=
    List.filter_congr fun slot _ => by rw [asStored_surplusOutcome]
  rw [deleteCalls, hremoved]
  rfl

end ReconcileInput

theorem full_calls_stored (applies : Except FleetError (List Call)) (deletes : List Call)
    {left right : FleetServiceStatus} (hstatus : left.stored = right.stored) :
    Except.map (List.map Call.stored) (do
        let applied ← applies
        .ok (applied ++ deletes ++ [.patchStatus (.full left)])) =
      Except.map (List.map Call.stored) (do
        let applied ← applies
        .ok (applied ++ deletes ++ [.patchStatus (.full right)])) := by
  have hlast : Call.stored (.patchStatus (.full left)) =
      Call.stored (.patchStatus (.full right)) :=
    congrArg (fun status => Call.patchStatus (.full status)) hstatus
  cases applies with
  | error error => rfl
  | ok applied =>
      simp only [bind, Except.bind, Except.map, List.map_append, List.map_cons, List.map_nil,
        hlast]

/-- The calls of a reconcile are those of one that reads the status as it comes
back, up to what does not come back. -/
theorem reconcileInner_asStored (input : ReconcileInput) :
    (reconcileInner input.asStored).map (List.map Call.stored) =
      (reconcileInner input).map (List.map Call.stored) := by
  have hstrategy : input.asStored.strategy = input.strategy := rfl
  have hpool : input.asStored.poolCandidates = input.poolCandidates := rfl
  have hmessage : input.asStored.noCandidateMessage = input.noCandidateMessage := rfl
  unfold reconcileInner
  rw [show input.asStored.fleet.metadata.ns = input.fleet.metadata.ns from rfl, hstrategy, hpool,
    hmessage, input.asStored_messagePatch, input.asStored_messagePatch, input.asStored_applyCalls,
    input.asStored_deleteCalls]
  cases input.fleet.metadata.ns with
  | none => rfl
  | some ns =>
      dsimp only
      split
      · rfl
      · split
        · rfl
        · exact full_calls_stored _ _ input.asStored_fullStatus

/-! ## Every run -/

/-- What stands in the API server reads as the status of the world, but for what
does not come back, and the children are its children. -/
structure StoredWorld.Reads (stored : StoredWorld) (world : World) : Prop where
  status : ∃ status, storedStatus FleetServiceStatus.read stored.json = some status ∧
    status.map FleetServiceStatus.stored = world.status.map FleetServiceStatus.stored
  children : stored.children = world.children

namespace StoredWorld.Reads

variable {stored : StoredWorld} {world : World}

theorem perform (hreads : stored.Reads world) {call other : Call}
    (hcall : call.stored = other.stored) : (stored.perform call).Reads (world.perform other) := by
  obtain ⟨⟨status, hread, hsame⟩, hchildren⟩ := hreads
  cases call with
  | applyChild child =>
      cases other with
      | applyChild other =>
          cases hcall
          exact ⟨⟨status, hread, hsame⟩,
            congrArg (fun children : BTreeMap String VllmService =>
              children.insert child.name child) hchildren⟩
      | deleteChild name => cases hcall
      | patchStatus patch => cases hcall
  | deleteChild name =>
      cases other with
      | deleteChild other =>
          cases hcall
          exact ⟨⟨status, hread, hsame⟩,
            congrArg (fun children : BTreeMap String VllmService => children.erase name) hchildren⟩
      | applyChild child => cases hcall
      | patchStatus patch => cases hcall
  | patchStatus patch =>
      cases other with
      | patchStatus other =>
          have hpatch : patch.stored = other.stored := Call.patchStatus.inj hcall
          refine ⟨⟨_, patch.read_patched hread, ?_⟩, hchildren⟩
          rw [Option.map_some, StatusPatch.merge_stored, StatusPatch.stored_stored, hpatch, hsame,
            ← StatusPatch.merge_stored]
          rfl
      | applyChild child => cases hcall
      | deleteChild name => cases hcall

theorem performAll (hreads : stored.Reads world) {calls others : List Call}
    (hcalls : calls.map Call.stored = others.map Call.stored) :
    (stored.performAll calls).Reads (world.performAll others) := by
  induction calls generalizing stored world others with
  | nil =>
      rw [List.map_nil, eq_comm, List.map_eq_nil_iff] at hcalls
      rw [hcalls]
      exact hreads
  | cons call calls ih =>
      cases others with
      | nil => cases hcalls
      | cons other others =>
          obtain ⟨hcall, hrest⟩ := List.cons.inj hcalls
          exact ih (hreads.perform hcall) hrest

theorem attempt (hreads : stored.Reads world) (metadata : ObjectMeta) (round : Round)
    (made : Nat) :
    (stored.attempt metadata round made).Reads (world.attempt metadata round made) := by
  obtain ⟨⟨status, hread, hsame⟩, hchildren⟩ := hreads
  have hcalls : (reconcileInner ((World.mk status stored.children).input metadata round)).map
      (List.map Call.stored) =
        (reconcileInner (world.input metadata round)).map (List.map Call.stored) := by
    rw [← reconcileInner_asStored, ← reconcileInner_asStored (world.input metadata round)]
    unfold ReconcileInput.asStored World.input World.listing
    dsimp only
    rw [hsame, hchildren]
  rw [StoredWorld.attempt, hread, World.attempt]
  dsimp only
  cases hleft : reconcileInner ((World.mk status stored.children).input metadata round) with
  | error error =>
      rw [hleft] at hcalls
      cases hright : reconcileInner (world.input metadata round) with
      | error other => exact ⟨⟨status, hread, hsame⟩, hchildren⟩
      | ok calls =>
          rw [hright] at hcalls
          cases hcalls
  | ok calls =>
      rw [hleft] at hcalls
      cases hright : reconcileInner (world.input metadata round) with
      | error other =>
          rw [hright] at hcalls
          cases hcalls
      | ok others =>
          rw [hright] at hcalls
          have hmapped : calls.map Call.stored = others.map Call.stored := Except.ok.inj hcalls
          refine performAll ⟨⟨status, hread, hsame⟩, hchildren⟩ ?_
          rw [List.map_take, List.map_take, hmapped]

theorem step (hreads : stored.Reads world) (metadata : ObjectMeta) (event : StoredEvent) :
    (event.storedStep metadata stored).Reads (event.step metadata world) := by
  cases event with
  | reconcile round made => exact hreads.attempt metadata round made
  | lose gone =>
      exact ⟨hreads.status,
        congrArg (fun children => children.filter fun name _ => !gone name) hreads.children⟩
  | patch json leaves =>
      obtain ⟨status, hread, hsame⟩ := hreads.status
      refine ⟨⟨status, ?_, hsame⟩, hreads.children⟩
      have hkept := at?_mergePatch_of_free (leaves []) stored.json
      rw [storedStatus] at hread ⊢
      simp only [at?, Option.bind_fun_some] at hkept
      rw [StoredEvent.storedStep, hkept]
      exact hread
  | extend members others =>
      obtain ⟨status, hread, hsame⟩ := hreads.status
      refine ⟨⟨some (status.getD .empty), ?_, ?_⟩, hreads.children⟩
      · exact storedStatus_patched (fun _ _ => object_of_readFleet)
          (rfl : FleetServiceStatus.read (.object []) = some .empty) hread
          fun _ hmembers => FleetServiceStatus.read_extended hmembers others
      · have hgetD := congrArg (fun read : Option FleetServiceStatus =>
          some (read.getD FleetServiceStatus.empty.stored)) hsame
        simp only [Option.getD_map] at hgetD
        exact hgetD

end StoredWorld.Reads

/-- Along every run of reconciles, cut anywhere, of children lost and of patches
of other status fields and of the rest of the object, the JSON in the API server
reads as the status of the modelled world, and the reconciles make the same
children. -/
theorem stored_fleet_reads (metadata : ObjectMeta) (events : Nat → StoredEvent)
    {stored : StoredWorld} {world : World} (hreads : stored.Reads world) (time : Nat) :
    (run (StoredEvent.storedStep metadata) events stored time).Reads
      (run (StoredEvent.step metadata) events world time) := by
  induction time with
  | zero => exact hreads
  | succ time ih => exact ih.step metadata (events time)

namespace Sample

def storedEvents (_ : Nat) : StoredEvent :=
  .reconcile (round (spec 1 1 1) (snapshot ["a"] []) []) 2

/-- From an object with a null status, the first status is read back. -/
theorem stored_fleet_reads_sample :
    ∃ status, storedStatus FleetServiceStatus.read (run (StoredEvent.storedStep metadata)
        storedEvents ⟨.object [("status", .null)], ∅⟩ 1).json = some (some status) ∧
      status.phase = "Placing" ∧
        status.placements.map PlacementStatus.nodeRef = ["a"] := by
  have hstart : StoredWorld.Reads ⟨.object [("status", .null)], ∅⟩ empty :=
    ⟨⟨none, rfl, rfl⟩, rfl⟩
  obtain ⟨status, hread, hsame⟩ := (stored_fleet_reads metadata storedEvents hstart 1).status
  have hwritten : (run (StoredEvent.step metadata) storedEvents empty 1).status.map
      (fun status => (status.phase, status.placements.map PlacementStatus.nodeRef)) =
        some ("Placing", ["a"]) := by
    decide +kernel
  cases status with
  | none =>
      rw [Option.map_none, eq_comm, Option.map_eq_none_iff] at hsame
      rw [hsame] at hwritten
      cases hwritten
  | some status =>
      obtain ⟨other, hother, hfields⟩ := Option.map_eq_some_iff.mp hwritten
      rw [hother, Option.map_some, Option.map_some, Option.some.injEq] at hsame
      obtain ⟨hphase, hnodes⟩ := Prod.mk.inj hfields
      refine ⟨status, hread, ?_, ?_⟩
      · rw [← hphase]
        have hphases := congrArg FleetServiceStatus.phase hsame
        exact hphases
      · have hplacements := congrArg (fun status : FleetServiceStatus =>
          status.placements.map PlacementStatus.nodeRef) hsame
        simp only [FleetServiceStatus.stored, List.map_map] at hplacements
        rw [← hnodes]
        exact hplacements

end Sample

end VllmColdstartOperator
