import VllmColdstartOperator.FleetController.World
import VllmColdstartOperator.Foundation.Interleaving

/-!
# All fleets of a cluster, one API call at a time

`Fleets` is what the API server holds for every fleet at once: the services of
each namespace, those of the fleets and those of nobody, the status of each
fleet, and beside them the calls that the reconcile in progress of each fleet
has still to make.  The controller never runs two reconciles of one fleet
together, but the calls of different fleets mix in any order.
-/

namespace VllmColdstartOperator

open Foundation Std

structure FleetKey where
  ns : String
  name : String
  deriving DecidableEq, Repr

def ObjectMeta.fleetKey (metadata : ObjectMeta) : Option FleetKey :=
  metadata.ns.map fun ns => ⟨ns, metadata.name⟩

/-- The label the fleet's children are listed by. -/
def VllmService.isChildOf (key : FleetKey) (service : VllmService) : Bool :=
  service.metadata.label fleetLabel = some key.name

def VllmService.isStandalone (service : VllmService) : Bool :=
  service.metadata.label fleetLabel = none

structure StandaloneService where
  service : VllmService
  standalone : service.isStandalone = true

structure Fleets where
  services : String → BTreeMap String VllmService
  statuses : FleetKey → Option FleetServiceStatus
  pending : FleetKey → List Call

/-- A reconcile begins with the cached status of the fleet and what it reads; it
makes its next call, or is cut.  A deleted fleet's children are collected one by
one.  Whoever applies or deletes services by hand leaves the children alone. -/
inductive FleetsEvent where
  | begin (metadata : ObjectMeta) (cached : Option FleetServiceStatus) (round : Round)
  | call (key : FleetKey)
  | cut (key : FleetKey)
  | deleteFleet (key : FleetKey)
  | collectChild (key : FleetKey) (name : String)
  | applyService (ns : String) (standalone : StandaloneService)
  | deleteService (ns name : String)

namespace FleetsEvent

def owner : FleetsEvent → Option FleetKey
  | .begin metadata _ _ => metadata.fleetKey
  | .call key => some key
  | .cut key => some key
  | .deleteFleet key => some key
  | .collectChild key _ => some key
  | .applyService _ _ => none
  | .deleteService _ _ => none

end FleetsEvent

/-- The calls of a reconcile; one that fails makes none. -/
def pendingCalls (input : ReconcileInput) : List Call :=
  match reconcileInner input with
  | .ok calls => calls
  | .error _ => []

namespace Fleets

variable (fleets : Fleets)

def existing (key : FleetKey) (observed : String → Option VllmServiceStatus) :
    List VllmService :=
  ((fleets.services key.ns).toList.filter fun entry => entry.2.isChildOf key).map fun entry =>
    entry.2.observedAs (observed entry.1)

def input (key : FleetKey) (metadata : ObjectMeta) (cached : Option FleetServiceStatus)
    (round : Round) : ReconcileInput where
  fleet := ⟨metadata, round.spec, cached⟩
  snapshot := round.snapshot
  existing := fleets.existing key round.observed

def perform (key : FleetKey) : Call → Fleets
  | .applyChild child =>
      { fleets with
        services := Function.update fleets.services key.ns
          ((fleets.services key.ns).insert child.name child) }
  | .deleteChild name =>
      { fleets with
        services := Function.update fleets.services key.ns ((fleets.services key.ns).erase name) }
  | .patchStatus patch =>
      { fleets with
        statuses := Function.update fleets.statuses key
          (some (patch.merge (fleets.statuses key))) }

def setPending (key : FleetKey) (calls : List Call) : Fleets :=
  { fleets with pending := Function.update fleets.pending key calls }

/-- Whether a stored service of that name is no fleet's child. -/
def isFree (ns name : String) : Bool :=
  ((fleets.services ns)[name]?).all VllmService.isStandalone

def next (event : FleetsEvent) (fleets : Fleets) : Fleets :=
  match event with
  | .begin metadata cached round =>
      match metadata.fleetKey with
      | none => fleets
      | some key => fleets.setPending key (pendingCalls (fleets.input key metadata cached round))
  | .call key =>
      match fleets.pending key with
      | [] => fleets
      | call :: calls => (fleets.perform key call).setPending key calls
  | .cut key => fleets.setPending key []
  | .deleteFleet key =>
      { fleets.setPending key [] with statuses := Function.update fleets.statuses key none }
  | .collectChild key name =>
      if ((fleets.services key.ns)[name]?).any fun child => child.isChildOf key then
        fleets.perform key (.deleteChild name)
      else fleets
  | .applyService ns standalone =>
      if fleets.isFree ns standalone.service.name then
        { fleets with
          services := Function.update fleets.services ns
            ((fleets.services ns).insert standalone.service.name standalone.service) }
      else fleets
  | .deleteService ns name =>
      if fleets.isFree ns name then
        { fleets with
          services := Function.update fleets.services ns ((fleets.services ns).erase name) }
      else fleets

end Fleets

/-! ## What one fleet sees -/

/-- A fleet's own world, and the calls its reconcile has still to make. -/
structure FleetView where
  world : World
  pending : List Call

namespace FleetView

def act (event : FleetsEvent) (view : FleetView) : FleetView :=
  match event with
  | .begin metadata cached round =>
      { view with
        pending := pendingCalls { view.world.input metadata round with
          fleet := ⟨metadata, round.spec, cached⟩ } }
  | .call _ =>
      match view.pending with
      | [] => view
      | call :: calls => ⟨view.world.perform call, calls⟩
  | .cut _ => { view with pending := [] }
  | .deleteFleet _ => ⟨{ view.world with status := none }, []⟩
  | .collectChild _ name => { view with world := view.world.perform (.deleteChild name) }
  | .applyService _ _ => view
  | .deleteService _ _ => view

end FleetView

namespace Fleets

variable (fleets : Fleets)

def world (key : FleetKey) : World where
  status := fleets.statuses key
  children := (fleets.services key.ns).filter fun _ child => child.isChildOf key

def view (key : FleetKey) : FleetView := ⟨fleets.world key, fleets.pending key⟩

end Fleets

/-! ## Children that are named apart -/

/-- What a fleet applies has its label, a slot's name and a pin, and what it
deletes a slot's name. -/
def Call.BelongsTo (call : Call) (key : FleetKey) : Prop :=
  match call with
  | .applyChild child => child.isChildOf key = true ∧ ∃ index ≤ usizeMax,
      child.name = childName key.name index ∧ ∃ node, child.spec.nodeName = some node
  | .deleteChild name => ∃ index, name = childName key.name index
  | .patchStatus _ => True

structure FleetView.WellFormed (view : FleetView) (key : FleetKey) : Prop where
  owned : view.world.Owned key.name
  pending : ∀ call ∈ view.pending, call.BelongsTo key

/-- Every labelled service is named and pinned as its fleet does, and so is
every call still to make. -/
def Fleets.Separated (fleets : Fleets) : Prop :=
  ∀ key, (fleets.view key).WellFormed key

end VllmColdstartOperator
