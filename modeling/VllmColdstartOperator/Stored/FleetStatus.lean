import VllmColdstartOperator.FleetController.World
import VllmColdstartOperator.Stored.NodeState

/-!
# The stored fleet status

The status of a FleetService as the API server holds it, what a reader makes of
it, and the two merge patches a reconcile writes.  `StoredWorld` is a fleet whose
status is that JSON: a reconcile begins with what it reads as, and does not run
at all when it does not read.
-/

namespace VllmColdstartOperator

open Foundation Json

/-- A float that is not finite is written as a null. -/
def floatJson (value : F32) : Json JsonScalar :=
  if value.isFinite then .scalar (.float value) else .null

def textJson (value : String) : Json JsonScalar := .scalar (.text value)

def i32Json (value : Int32) : Json JsonScalar := .scalar (.integer value.toInt)

/-! ## Writing and reading -/

namespace PlacementDecisionInputs

def fields (inputs : PlacementDecisionInputs) : List (String × Option (Json JsonScalar)) :=
  [("strategy", some (textJson inputs.strategy)),
    ("warmth", inputs.warmth.map textJson),
    ("tokensPerJoule", inputs.tokensPerJoule.map floatJson),
    ("kvCacheHitRate", inputs.kvCacheHitRate.map floatJson),
    ("gpuUtilization", inputs.gpuUtilization.map floatJson),
    ("activeServiceCount", inputs.activeServiceCount.map i32Json)]

def json (inputs : PlacementDecisionInputs) : Json JsonScalar := .object (present inputs.fields)

def read : Json JsonScalar → Option PlacementDecisionInputs
  | .object members => do
      let strategy ← required readText (lookup "strategy" members)
      let warmth ← optional readText (lookup "warmth" members)
      let tokensPerJoule ← optional readF32 (lookup "tokensPerJoule" members)
      let kvCacheHitRate ← optional readF32 (lookup "kvCacheHitRate" members)
      let gpuUtilization ← optional readF32 (lookup "gpuUtilization" members)
      let activeServiceCount ← optional readI32 (lookup "activeServiceCount" members)
      some {
        strategy, warmth, tokensPerJoule, kvCacheHitRate, gpuUtilization, activeServiceCount }
  | _ => none

end PlacementDecisionInputs

namespace PlacementStatus

def fields (placement : PlacementStatus) : List (String × Option (Json JsonScalar)) :=
  [("vllmServiceRef", some (textJson placement.vllmServiceRef)),
    ("nodeRef", some (textJson placement.nodeRef)),
    ("phase", some (textJson placement.phase)),
    ("lastTransitionTime", some (textJson placement.lastTransitionTime)),
    ("stableSince", some (textJson placement.stableSince)),
    ("surplusReconciles", some (i32Json placement.surplusReconciles)),
    ("decidedOn", placement.decidedOn.map PlacementDecisionInputs.json)]

def json (placement : PlacementStatus) : Json JsonScalar := .object (present placement.fields)

def read : Json JsonScalar → Option PlacementStatus
  | .object members => do
      let vllmServiceRef ← required readText (lookup "vllmServiceRef" members)
      let nodeRef ← required readText (lookup "nodeRef" members)
      let phase ← required readText (lookup "phase" members)
      let lastTransitionTime ← required readText (lookup "lastTransitionTime" members)
      let stableSince ← defaulted readText "" (lookup "stableSince" members)
      let surplusReconciles ← defaulted readI32 0 (lookup "surplusReconciles" members)
      let decidedOn ← optional PlacementDecisionInputs.read (lookup "decidedOn" members)
      some {
        vllmServiceRef, nodeRef, phase, lastTransitionTime, stableSince, surplusReconciles,
        decidedOn }
  | _ => none

end PlacementStatus

namespace FleetServiceStatus

def members (status : FleetServiceStatus) : List (String × Json JsonScalar) :=
  [("phase", textJson status.phase),
    ("readyReplicas", i32Json status.readyReplicas),
    ("desiredReplicas", i32Json status.desiredReplicas),
    ("replicas", i32Json status.replicas),
    ("selector", textJson status.selector),
    ("warmingReplicas", i32Json status.warmingReplicas),
    ("activeReschedules", i32Json status.activeReschedules),
    ("placements", .array (status.placements.map PlacementStatus.json)),
    ("message", textJson status.message)]

def read : Json JsonScalar → Option FleetServiceStatus
  | .object members => do
      let phase ← defaulted readText "" (lookup "phase" members)
      let readyReplicas ← defaulted readI32 0 (lookup "readyReplicas" members)
      let desiredReplicas ← defaulted readI32 0 (lookup "desiredReplicas" members)
      let replicas ← defaulted readI32 0 (lookup "replicas" members)
      let selector ← defaulted readText "" (lookup "selector" members)
      let warmingReplicas ← defaulted readI32 0 (lookup "warmingReplicas" members)
      let activeReschedules ← defaulted readI32 0 (lookup "activeReschedules" members)
      let placements ← defaulted (readItems PlacementStatus.read) [] (lookup "placements" members)
      let message ← defaulted readText "" (lookup "message" members)
      some {
        phase, readyReplicas, desiredReplicas, replicas, selector, warmingReplicas,
        activeReschedules, placements, message }
  | _ => none

end FleetServiceStatus

/-! ## The patches -/

namespace StatusPatch

def members : StatusPatch → List (String × Json JsonScalar)
  | .full status => status.members
  | .message text selector first =>
      [("message", textJson text), ("selector", textJson selector)] ++
        match first with
        | some (phase, desired) =>
            [("phase", textJson phase), ("desiredReplicas", i32Json desired)]
        | none => []

def json (patch : StatusPatch) : Json JsonScalar := .object [("status", .object patch.members)]

end StatusPatch

/-! ## Reconciling what is stored -/

structure StoredWorld where
  json : Json JsonScalar
  children : BTreeMap String VllmService

namespace StoredWorld

def perform (stored : StoredWorld) : Call → StoredWorld
  | .applyChild child => { stored with children := stored.children.insert child.name child }
  | .deleteChild name => { stored with children := stored.children.erase name }
  | .patchStatus patch => { stored with json := mergePatch stored.json patch.json }

def performAll (stored : StoredWorld) (calls : List Call) : StoredWorld :=
  calls.foldl perform stored

def attempt (stored : StoredWorld) (metadata : ObjectMeta) (round : Round) (made : Nat) :
    StoredWorld :=
  match storedStatus FleetServiceStatus.read stored.json with
  | none => stored
  | some status =>
      match reconcileInner ((World.mk status stored.children).input metadata round) with
      | .ok calls => stored.performAll (calls.take made)
      | .error _ => stored

end StoredWorld

/-- A reconcile, some children deleted from outside, a patch of the object that
leaves the status alone, or one of status fields that the operator does not have. -/
inductive StoredEvent where
  | reconcile (round : Round) (made : Nat)
  | lose (gone : String → Bool)
  | patch (json : Json JsonScalar) (leaves : ∀ path, touches ("status" :: path) json = false)
  | extend (members : List (String × Json JsonScalar))
      (others : ∀ key ∈ FleetServiceStatus.empty.members.map Prod.fst,
        key ∉ members.map Prod.fst)

namespace StoredEvent

def storedStep (metadata : ObjectMeta) (event : StoredEvent) (stored : StoredWorld) :
    StoredWorld :=
  match event with
  | .reconcile round made => stored.attempt metadata round made
  | .lose gone => { stored with children := stored.children.filter fun name _ => !gone name }
  | .patch json _ => { stored with json := mergePatch stored.json json }
  | .extend members _ =>
      { stored with json := mergePatch stored.json (.object [("status", .object members)]) }

/-- A status that holds other fields alone reads as an empty one. -/
def step (metadata : ObjectMeta) (event : StoredEvent) (world : World) : World :=
  match event with
  | .reconcile round made => world.attempt metadata round made
  | .lose gone => { world with children := world.children.filter fun name _ => !gone name }
  | .patch _ _ => world
  | .extend _ _ => { world with status := some (world.status.getD .empty) }

end StoredEvent

end VllmColdstartOperator
