import Mathlib

/-!
# Interleaved parties

Several parties act on one state, one event at a time, and each has a view of
it.  They act apart when an event changes the view of the party it belongs to
only, and by what that view holds.  Then a party's view after any interleaving
is what its own events make of it, whatever the others did in between.
-/

namespace VllmColdstartOperator.Foundation

section Interleaving

variable {Party Event State View : Type}

def runEvents (step : Event → State → State) (start : State) (events : List Event) : State :=
  events.foldl (fun state event => step event state) start

@[simp] theorem runEvents_nil (step : Event → State → State) (start : State) :
    runEvents step start [] = start := rfl

@[simp] theorem runEvents_cons (step : Event → State → State) (start : State) (event : Event)
    (events : List Event) :
    runEvents step start (event :: events) = runEvents step (step event start) events := rfl

theorem runEvents_invariant {step : Event → State → State} {Inv : State → Prop}
    (hkeeps : ∀ event state, Inv state → Inv (step event state)) (events : List Event)
    {start : State} (hstart : Inv start) : Inv (runEvents step start events) := by
  induction events generalizing start with
  | nil => exact hstart
  | cons event events ih => exact ih (hkeeps event start hstart)

/-- Under the invariant, an event changes the view of its owner only, and what
it makes of that view depends on the view alone. -/
structure ActsApart (step : Event → State → State) (owner : Event → Option Party)
    (view : Party → State → View) (act : Event → View → View) (Inv : State → Prop) : Prop where
  keeps : ∀ event state, Inv state → Inv (step event state)
  own : ∀ party event state, Inv state → owner event = some party →
    view party (step event state) = act event (view party state)
  others : ∀ party event state, Inv state → owner event ≠ some party →
    view party (step event state) = view party state

namespace ActsApart

variable [DecidableEq Party] {step : Event → State → State} {owner : Event → Option Party}
  {view : Party → State → View} {act : Event → View → View} {Inv : State → Prop}

def ownEvents (owner : Event → Option Party) (party : Party) (events : List Event) :
    List Event :=
  events.filter fun event => owner event = some party

theorem view_run (hapart : ActsApart step owner view act Inv) (party : Party)
    (events : List Event) {start : State} (hstart : Inv start) :
    view party (runEvents step start events) =
      runEvents act (view party start) (ownEvents owner party events) := by
  induction events generalizing start with
  | nil => rfl
  | cons event events ih =>
      rw [runEvents_cons, ih (hapart.keeps event start hstart)]
      by_cases howner : owner event = some party
      · have hown : ownEvents owner party (event :: events) =
            event :: ownEvents owner party events := by simp [ownEvents, howner]
        rw [hown, runEvents_cons, hapart.own party event start hstart howner]
      · have hskipped : ownEvents owner party (event :: events) =
            ownEvents owner party events := by simp [ownEvents, howner]
        rw [hskipped, hapart.others party event start hstart howner]

/-- The others' events may as well not have happened. -/
theorem view_run_own (hapart : ActsApart step owner view act Inv) (party : Party)
    (events : List Event) {start : State} (hstart : Inv start) :
    view party (runEvents step start events) =
      view party (runEvents step start (ownEvents owner party events)) := by
  rw [hapart.view_run party events hstart, hapart.view_run party _ hstart, ownEvents, ownEvents,
    List.filter_filter]
  simp only [Bool.and_self]

end ActsApart

end Interleaving

end VllmColdstartOperator.Foundation
