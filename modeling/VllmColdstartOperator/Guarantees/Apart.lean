import VllmColdstartOperator.FleetController.Fleets
import VllmColdstartOperator.Guarantees.Naming
import VllmColdstartOperator.Guarantees.Selectors

/-!
# Fleets that share a cluster

The reconciles of all fleets mix call by call, beside services applied by hand.
A fleet still sees what its own events alone make, and its world is the one its
own reconciles make one after the other, each cut after some of its calls.
-/

namespace VllmColdstartOperator

open Foundation Std

/-! ## The calls of a reconcile -/

theorem mem_pendingCalls {input : ReconcileInput} {call : Call}
    (hcall : call ∈ pendingCalls input) :
    call ∈ input.childCalls ∨ ∃ patch, call = .patchStatus patch := by
  rw [pendingCalls] at hcall
  by_cases hfull : input.IsFull
  · rw [ReconcileInput.reconcileInner_of_isFull hfull] at hcall
    rcases List.mem_append.mp hcall with hchild | hpatch
    · exact .inl hchild
    · exact .inr ⟨_, List.mem_singleton.mp hpatch⟩
  · rcases ReconcileInput.reconcileInner_of_not_isFull hfull with ⟨error, heq⟩ | ⟨text, heq⟩
    · rw [heq] at hcall
      cases hcall
    · rw [heq] at hcall
      exact .inr ⟨_, List.mem_singleton.mp hcall⟩

theorem pendingCalls_belong {input : ReconcileInput} {key : FleetKey}
    (hkey : input.fleet.metadata.fleetKey = some key) :
    ∀ call ∈ pendingCalls input, call.BelongsTo key := by
  obtain ⟨ns, hns, heq⟩ := Option.map_eq_some_iff.mp hkey
  subst heq
  intro call hcall
  rcases mem_pendingCalls hcall with hchild | ⟨patch, rfl⟩
  · rw [ReconcileInput.childCalls, List.mem_append, List.mem_map, List.mem_map] at hchild
    rcases hchild with ⟨slot, hslot, rfl⟩ | ⟨slot, -, rfl⟩
    · obtain ⟨hrange, -⟩ := (ReconcileInput.mem_slotNodes slot.1 slot.2).mp hslot
      have hbound := @ReconcileInput.desired_lt input
      refine ⟨?_, slot.1, by unfold usizeMax; omega, rfl, slot.2, rfl⟩
      exact decide_eq_true
        (VllmServiceController.ownedVllmService_label input.fleet _ slot.1 slot.2)
    · exact ⟨slot.1, rfl⟩
  · trivial

namespace Fleets

variable {fleets : Fleets} {key other : FleetKey}

/-! ## What a call changes -/

theorem existing_eq_listing (observed : String → Option VllmServiceStatus) :
    fleets.existing key observed = (fleets.world key).listing observed := by
  rw [existing, World.listing, world, ExtTreeMap.toList_filter]

theorem input_eq (metadata : ObjectMeta) (cached : Option FleetServiceStatus) (round : Round) :
    fleets.input key metadata cached round =
      { (fleets.world key).input metadata round with
        fleet := ⟨metadata, round.spec, cached⟩ } := by
  rw [input, existing_eq_listing]
  rfl

theorem Separated.lookup_others (hseparated : fleets.Separated) (hne : other ≠ key) {index : Nat}
    (hns : other.ns = key.ns) :
    ((fleets.services key.ns)[childName other.name index]?).filter
      (fun child => child.isChildOf key) = none := by
  rw [← BTreeMap.lookup_filter]
  by_contra hfound
  obtain ⟨child, hchild⟩ := Option.ne_none_iff_exists'.mp hfound
  obtain ⟨slot, -, hname, -⟩ := (hseparated key).owned _ child hchild
  obtain ⟨hsame, -⟩ := childName_pair_inj hname
  apply hne
  cases other
  cases key
  simp_all

theorem perform_world (call : Call)
    (hcall : ∀ child, call = .applyChild child → child.isChildOf key = true) :
    (fleets.perform key call).world key = (fleets.world key).perform call := by
  cases call with
  | applyChild child =>
      simp only [perform, world, World.perform, Function.update_self]
      rw [BTreeMap.filter_insert _ _ (hcall child rfl)]
  | deleteChild name =>
      simp only [perform, world, World.perform, Function.update_self]
      rw [BTreeMap.filter_erase]
  | patchStatus patch => simp [perform, world, World.perform]

theorem isChildOf_inj {child : VllmService} (hkey : child.isChildOf key = true)
    (hother : child.isChildOf other = true) : key.name = other.name := by
  simp only [VllmService.isChildOf, decide_eq_true_eq] at hkey hother
  simpa [hkey] using hother

theorem perform_others (hseparated : fleets.Separated) (call : Call)
    (hcall : call.BelongsTo other) (hne : other ≠ key) :
    (fleets.perform other call).world key = fleets.world key := by
  by_cases hns : other.ns = key.ns
  · cases call with
    | applyChild child =>
        obtain ⟨hchild, index, -, hname, -⟩ := hcall
        have hforeign : child.isChildOf key = false := by
          by_contra hown
          have hsame := isChildOf_inj hchild (Bool.eq_true_of_not_eq_false hown)
          exact hne (by cases other; cases key; simp_all)
        simp only [perform, world, hns, Function.update_self]
        rw [BTreeMap.filter_insert_of_not _ hforeign]
        rw [hname]
        exact hseparated.lookup_others hne hns
    | deleteChild name =>
        obtain ⟨index, rfl⟩ := hcall
        simp only [perform, world, hns, Function.update_self]
        rw [BTreeMap.filter_erase_of_not _ (hseparated.lookup_others hne hns)]
    | patchStatus patch => simp [perform, world, hne.symm]
  · have hkeep : key.ns ≠ other.ns := fun h => hns h.symm
    cases call with
    | applyChild child => simp [perform, world, hkeep]
    | deleteChild name => simp [perform, world, hkeep]
    | patchStatus patch => simp [perform, world, hne.symm]

/-! ## What an event changes -/

theorem setPending_view (calls : List Call) (key other : FleetKey) :
    (fleets.setPending other calls).view key =
      { fleets.view key with
        pending := if key = other then calls else fleets.pending key } := by
  simp [setPending, view, world, Function.update_apply]

theorem world_update_others {ns : String} {services : BTreeMap String VllmService}
    (hsame : (services.filter fun _ child => child.isChildOf key) =
      (fleets.services ns).filter fun _ child => child.isChildOf key) :
    { fleets with services := Function.update fleets.services ns services }.world key =
      fleets.world key := by
  by_cases hns : key.ns = ns
  · subst hns
    simp only [world, Function.update_self, hsame]
  · simp [world, hns]

theorem filter_of_isFree {ns name : String} (hfree : fleets.isFree ns name = true) :
    ((fleets.services ns)[name]?).filter (fun child => child.isChildOf key) = none := by
  rw [isFree] at hfree
  cases hfound : (fleets.services ns)[name]? with
  | none => rfl
  | some child =>
      rw [hfound, Option.all_some, VllmService.isStandalone, decide_eq_true_eq] at hfree
      simp [VllmService.isChildOf, hfree]

theorem next_own (hseparated : fleets.Separated) (event : FleetsEvent)
    (howner : event.owner = some key) :
    (next event fleets).view key = (fleets.view key).act event := by
  cases event with
  | begin metadata cached round =>
      have hkey : metadata.fleetKey = some key := howner
      simp only [next, hkey, setPending_view, if_true, input_eq]
      rfl
  | call owner =>
      obtain rfl : owner = key := Option.some.inj howner
      have hpending := (hseparated owner).pending
      rw [next, FleetView.act]
      simp only [view] at hpending ⊢
      cases hcalls : fleets.pending owner with
      | nil => simp [hcalls]
      | cons call calls =>
          rw [hcalls] at hpending
          have hcall := hpending call List.mem_cons_self
          dsimp only
          rw [← view, setPending_view, if_pos rfl, view, perform_world]
          rintro child rfl
          exact hcall.1
  | cut owner =>
      obtain rfl : owner = key := Option.some.inj howner
      simp [next, setPending_view, FleetView.act]
  | deleteFleet owner =>
      obtain rfl : owner = key := Option.some.inj howner
      simp [next, setPending, view, world, FleetView.act]
  | collectChild owner name =>
      obtain rfl : owner = key := Option.some.inj howner
      rw [next, FleetView.act]
      dsimp only [view]
      rw [← perform_world (.deleteChild name) (by simp)]
      split
      · rfl
      · next hnone =>
          -- nothing of the fleet stands there, and erasing nothing changes nothing
          have hfree : ((fleets.services owner.ns)[name]?).filter
              (fun child => child.isChildOf owner) = none := by
            cases hfound : (fleets.services owner.ns)[name]? with
            | none => rfl
            | some child => simpa [hfound] using hnone
          rw [perform]
          rw [world_update_others (BTreeMap.filter_erase_of_not _ hfree)]
  | applyService ns standalone => cases howner
  | deleteService ns name => cases howner

theorem next_others (hseparated : fleets.Separated) (event : FleetsEvent)
    (howner : event.owner ≠ some key) :
    (next event fleets).view key = fleets.view key := by
  cases event with
  | begin metadata cached round =>
      rw [next]
      cases hkey : metadata.fleetKey with
      | none => rfl
      | some owner =>
          have hne : key ≠ owner := by
            rintro rfl
            exact howner hkey
          dsimp only
          rw [setPending_view, if_neg hne]
          rfl
  | call owner =>
      have hne : key ≠ owner := fun heq => howner (congrArg some heq.symm)
      have hpending := (hseparated owner).pending
      rw [next]
      simp only [view] at hpending
      cases hcalls : fleets.pending owner with
      | nil => rfl
      | cons call calls =>
          rw [hcalls] at hpending
          have hworld := perform_others hseparated call (hpending call List.mem_cons_self) hne.symm
          dsimp only
          rw [setPending_view, if_neg hne, view, hworld]
          cases call <;> rfl
  | cut owner =>
      have hne : key ≠ owner := fun heq => howner (congrArg some heq.symm)
      rw [next, setPending_view, if_neg hne]
      rfl
  | deleteFleet owner =>
      have hne : key ≠ owner := fun heq => howner (congrArg some heq.symm)
      simp [next, setPending, view, world, hne]
  | collectChild owner name =>
      have hne : owner ≠ key := fun heq => howner (congrArg some heq)
      rw [next]
      split
      · next hchild =>
          obtain ⟨child, hfound, howned⟩ := (Option.any_eq_true _ _).mp hchild
          obtain ⟨index, -, hname, -⟩ := (hseparated owner).owned name child (by
            dsimp only [view, world]
            rw [BTreeMap.lookup_filter, hfound]
            simp [howned])
          rw [view, perform_others hseparated (.deleteChild name) ⟨index, hname⟩ hne]
          rfl
      · rfl
  | applyService ns standalone =>
      rw [next]
      split
      · next hfree =>
          have hforeign : standalone.service.isChildOf key = false := by
            have hstandalone := standalone.standalone
            simp only [VllmService.isStandalone, decide_eq_true_eq] at hstandalone
            simp [VllmService.isChildOf, hstandalone]
          have hsame := BTreeMap.filter_insert_of_not _ hforeign (filter_of_isFree hfree)
          rw [view, world_update_others hsame]
          rfl
      · rfl
  | deleteService ns name =>
      rw [next]
      split
      · next hfree =>
          have hsame := BTreeMap.filter_erase_of_not _ (@filter_of_isFree fleets key _ _ hfree)
          rw [view, world_update_others hsame]
          rfl
      · rfl

end Fleets

namespace FleetView

variable {view : FleetView} {key : FleetKey}

theorem WellFormed.perform (hview : view.WellFormed key) {call : Call}
    (hcall : call.BelongsTo key) : (view.world.perform call).Owned key.name := by
  refine @World.Owned.performAll _ _ hview.owned [call] fun child hmem => ?_
  obtain rfl := List.mem_singleton.mp hmem
  exact hcall.2

theorem WellFormed.act (hview : view.WellFormed key) {event : FleetsEvent}
    (howner : event.owner = some key) : (view.act event).WellFormed key := by
  cases event with
  | begin metadata cached round =>
      exact ⟨hview.owned, @pendingCalls_belong _ key howner⟩
  | call owner =>
      rw [FleetView.act]
      cases hcalls : view.pending with
      | nil => exact hview
      | cons call calls =>
          have hpending := hview.pending
          rw [hcalls] at hpending
          exact ⟨hview.perform (hpending call List.mem_cons_self),
            fun later hlater => hpending later (List.mem_cons_of_mem _ hlater)⟩
  | cut owner => exact ⟨hview.owned, by simp [FleetView.act]⟩
  | deleteFleet owner => exact ⟨hview.owned, by simp [FleetView.act]⟩
  | collectChild owner name =>
      refine ⟨@World.Owned.performAll _ _ hview.owned [.deleteChild name] fun child hmem => ?_,
        hview.pending⟩
      simp at hmem
  | applyService ns standalone => exact hview
  | deleteService ns name => exact hview

end FleetView

/-- One fleet's events change what that fleet sees, and nothing another does. -/
theorem fleets_actsApart : ActsApart Fleets.next FleetsEvent.owner
    (fun key fleets => fleets.view key) FleetView.act Fleets.Separated where
  own _ event _ hseparated howner := Fleets.next_own hseparated event howner
  others _ event _ hseparated howner := Fleets.next_others hseparated event howner
  keeps event fleets hseparated key := by
    by_cases howner : event.owner = some key
    · rw [Fleets.next_own hseparated event howner]
      exact (hseparated key).act howner
    · rw [Fleets.next_others hseparated event howner]
      exact hseparated key

/-- Whatever the other fleets and everybody else did in between, a fleet sees
what it would see had its own events been the only ones. -/
theorem fleets_keep_apart {start : Fleets} (hstart : start.Separated) (key : FleetKey)
    (events : List FleetsEvent) :
    (runEvents Fleets.next start events).view key =
        (runEvents Fleets.next start
          (ActsApart.ownEvents FleetsEvent.owner key events)).view key ∧
      (runEvents Fleets.next start events).Separated :=
  ⟨fleets_actsApart.view_run_own key events hstart,
    runEvents_invariant fleets_actsApart.keeps events hstart⟩

/-! ## A fleet's reconciles, one after the other -/

/-- Reconciles one after the other, each with the number of calls it made. -/
def World.attemptAll (world : World) (rounds : List ((ObjectMeta × Round) × Nat)) : World :=
  rounds.foldl (fun world round => world.attempt round.1.1 round.1.2 round.2) world

namespace FleetsEvent

def begun (key : FleetKey) : FleetsEvent → Option (ObjectMeta × Round)
  | .begin metadata _ round => if metadata.fleetKey = some key then some (metadata, round) else none
  | .call _ => none
  | .cut _ => none
  | .deleteFleet _ => none
  | .collectChild _ _ => none
  | .applyService _ _ => none
  | .deleteService _ _ => none

/-- A fleet that stays, and whose reconciles begin from the status it has. -/
def Keeps (key : FleetKey) (event : FleetsEvent) (fleets : Fleets) : Prop :=
  match event with
  | .begin metadata cached _ => metadata.fleetKey = some key → cached = fleets.statuses key
  | .call _ => True
  | .cut _ => True
  | .deleteFleet deleted => deleted ≠ key
  | .collectChild owner _ => owner ≠ key
  | .applyService _ _ => True
  | .deleteService _ _ => True

end FleetsEvent

theorem attempt_eq_performAll (world : World) (metadata : ObjectMeta) (round : Round)
    (made : Nat) :
    world.attempt metadata round made =
      world.performAll ((pendingCalls (world.input metadata round)).take made) := by
  rw [World.attempt, pendingCalls]
  cases reconcileInner (world.input metadata round) with
  | error error => simp [World.performAll]
  | ok calls => rfl

theorem attemptAll_append (world : World) (rounds : List ((ObjectMeta × Round) × Nat))
    (metadata : ObjectMeta) (round : Round) (made : Nat) :
    world.attemptAll (rounds ++ [((metadata, round), made)]) =
      (world.attemptAll rounds).attempt metadata round made :=
  List.foldl_append

/-- The reconciles begun so far, the last of them with what it has still to do. -/
def FleetView.After (view : FleetView) (origin : World) (begun : List (ObjectMeta × Round)) :
    Prop :=
  ∃ rounds : List ((ObjectMeta × Round) × Nat), rounds.map Prod.fst = begun ∧
    view.world = origin.attemptAll rounds ∧
    (view.pending = [] ∨ ∃ earlier metadata round made,
      rounds = earlier ++ [((metadata, round), made)] ∧
      view.pending =
        (pendingCalls ((origin.attemptAll earlier).input metadata round)).drop made)

namespace FleetView

variable {view : FleetView} {origin : World} {begun : List (ObjectMeta × Round)}

theorem After.begin (hafter : view.After origin begun) (metadata : ObjectMeta) (round : Round) :
    After { view with pending := pendingCalls (view.world.input metadata round) } origin
      (begun ++ [(metadata, round)]) := by
  obtain ⟨rounds, hrounds, hworld, -⟩ := hafter
  refine ⟨rounds ++ [((metadata, round), 0)], by simp [hrounds], ?_, .inr
    ⟨rounds, metadata, round, 0, rfl, by rw [hworld]; rfl⟩⟩
  rw [attemptAll_append, ← hworld, attempt_eq_performAll]
  rfl

theorem After.call (hafter : view.After origin begun) {call : Call} {calls : List Call}
    (hpending : view.pending = call :: calls) :
    After ⟨view.world.perform call, calls⟩ origin begun := by
  obtain ⟨rounds, hrounds, hworld, hnone | ⟨earlier, metadata, round, made, rfl, hcalls⟩⟩ := hafter
  · rw [hnone] at hpending
    cases hpending
  · rw [hpending] at hcalls
    have hlater : calls =
        (pendingCalls ((origin.attemptAll earlier).input metadata round)).drop (made + 1) := by
      rw [← List.tail_drop, ← hcalls, List.tail_cons]
    have hnext : (pendingCalls ((origin.attemptAll earlier).input metadata round))[made]? =
        some call := by
      rw [← List.head?_drop, ← hcalls, List.head?_cons]
    refine ⟨earlier ++ [((metadata, round), made + 1)], by simpa using hrounds, ?_,
      .inr ⟨earlier, metadata, round, made + 1, rfl, hlater⟩⟩
    rw [attemptAll_append, attempt_eq_performAll, List.take_add_one, hnext, Option.toList_some,
      World.performAll_append, ← attempt_eq_performAll, ← attemptAll_append, ← hworld]
    rfl

theorem After.stop (hafter : view.After origin begun) :
    After { view with pending := [] } origin begun := by
  obtain ⟨rounds, hrounds, hworld, -⟩ := hafter
  exact ⟨rounds, hrounds, hworld, .inl rfl⟩

end FleetView

theorem after_next {fleets : Fleets} (hseparated : fleets.Separated) {key : FleetKey}
    {origin : World} {begun : List (ObjectMeta × Round)}
    (hafter : (fleets.view key).After origin begun) {event : FleetsEvent}
    (hkeeps : event.Keeps key fleets) :
    ((Fleets.next event fleets).view key).After origin (begun ++ (event.begun key).toList) := by
  by_cases howner : event.owner = some key
  · rw [Fleets.next_own hseparated event howner]
    cases event with
    | begin metadata cached round =>
        have hkey : metadata.fleetKey = some key := howner
        rw [FleetsEvent.begun, if_pos hkey, FleetView.act, hkeeps hkey]
        exact hafter.begin metadata round
    | call owner =>
        rw [FleetView.act, FleetsEvent.begun, Option.toList_none, List.append_nil]
        cases hcalls : (fleets.view key).pending with
        | nil => exact hafter
        | cons call calls => exact hafter.call hcalls
    | cut owner =>
        rw [FleetsEvent.begun, Option.toList_none, List.append_nil]
        exact hafter.stop
    | deleteFleet owner => exact absurd (Option.some.inj howner) hkeeps
    | collectChild owner name => exact absurd (Option.some.inj howner) hkeeps
    | applyService ns standalone => cases howner
    | deleteService ns name => cases howner
  · have hbegun : event.begun key = none := by
      cases event with
      | begin metadata cached round => exact if_neg howner
      | call owner => rfl
      | cut owner => rfl
      | deleteFleet owner => rfl
      | collectChild owner name => rfl
      | applyService ns standalone => rfl
      | deleteService ns name => rfl
    rw [Fleets.next_others hseparated event howner, hbegun, Option.toList_none, List.append_nil]
    exact hafter

def KeepsAll (key : FleetKey) : Fleets → List FleetsEvent → Prop
  | _, [] => True
  | fleets, event :: events => event.Keeps key fleets ∧ KeepsAll key (fleets.next event) events

theorem after_run {key : FleetKey} {origin : World} {events : List FleetsEvent}
    {fleets : Fleets} {begun : List (ObjectMeta × Round)} (hseparated : fleets.Separated)
    (hafter : (fleets.view key).After origin begun) (hkeeps : KeepsAll key fleets events) :
    ((runEvents Fleets.next fleets events).view key).After origin
      (begun ++ events.filterMap (FleetsEvent.begun key)) := by
  induction events generalizing fleets begun with
  | nil => simpa using hafter
  | cons event events ih =>
      have hnext := ih (fleets_actsApart.keeps event fleets hseparated)
        (after_next hseparated hafter hkeeps.1) hkeeps.2
      have hcons : (event :: events).filterMap (FleetsEvent.begun key) =
          (event.begun key).toList ++ events.filterMap (FleetsEvent.begun key) := by
        cases hbegun : event.begun key <;> simp [hbegun]
      rw [hcons, ← List.append_assoc]
      exact hnext

/-- While each of its reconciles begins from the status it has, and neither the
fleet is deleted nor a child of it collected, a fleet's world is at all times what
its own reconciles make one after the other, each cut after some number of its
calls, and it stays owned. -/
theorem fleet_world_is_attempts {start : Fleets} (hstart : start.Separated) (key : FleetKey)
    (hidle : start.pending key = []) (events : List FleetsEvent)
    (hkeeps : KeepsAll key start events) :
    (∃ rounds : List ((ObjectMeta × Round) × Nat),
      rounds.map Prod.fst = events.filterMap (FleetsEvent.begun key) ∧
      (runEvents Fleets.next start events).world key = (start.world key).attemptAll rounds) ∧
    ((runEvents Fleets.next start events).world key).Owned key.name := by
  have hbegin : (start.view key).After (start.world key) [] := ⟨[], rfl, rfl, .inl hidle⟩
  obtain ⟨rounds, hrounds, hworld, -⟩ := after_run hstart hbegin hkeeps
  exact ⟨⟨rounds, hrounds, hworld⟩,
    (runEvents_invariant fleets_actsApart.keeps events hstart key).owned⟩

namespace Sample

def noFleets : Fleets where
  services := fun _ => ∅
  statuses := fun _ => none
  pending := fun _ => []

theorem noFleets_separated : noFleets.Separated := by
  intro key
  refine ⟨fun name child hchild => ?_, fun call hcall => by cases hcall⟩
  have hnone : ((noFleets.view key).world.children)[name]? = none := by
    simp [Fleets.view, Fleets.world, noFleets]
  rw [hnone] at hchild
  cases hchild

def fleetKey : FleetKey := ⟨"default", "fleet"⟩

/-- A second fleet, named as the first one's child is. -/
def childlike : ObjectMeta := { metadata with name := "fleet-0" }

def inTurn : List FleetsEvent :=
  [.begin metadata none (round (spec 2 1 1) (snapshot ["n"] []) []),
    .begin childlike none (round (spec 1 1 1) (snapshot ["n"] []) []),
    .call fleetKey, .call ⟨"default", "fleet-0"⟩, .call fleetKey, .cut ⟨"default", "fleet-0"⟩]

theorem fleets_keep_apart_sample :
    (runEvents Fleets.next noFleets inTurn).view fleetKey =
        (runEvents Fleets.next noFleets
          (ActsApart.ownEvents FleetsEvent.owner fleetKey inTurn)).view fleetKey ∧
      (runEvents Fleets.next noFleets inTurn).Separated :=
  fleets_keep_apart noFleets_separated fleetKey inTurn

theorem fleet_world_is_attempts_sample :
    (∃ rounds : List ((ObjectMeta × Round) × Nat),
      rounds.map Prod.fst = inTurn.filterMap (FleetsEvent.begun fleetKey) ∧
      (runEvents Fleets.next noFleets inTurn).world fleetKey =
        (noFleets.world fleetKey).attemptAll rounds) ∧
    ((runEvents Fleets.next noFleets inTurn).world fleetKey).Owned fleetKey.name :=
  fleet_world_is_attempts noFleets_separated fleetKey rfl inTurn
    ⟨fun _ => rfl, fun hkey => absurd hkey (by decide), trivial, trivial, trivial, trivial, trivial⟩

end Sample

end VllmColdstartOperator
