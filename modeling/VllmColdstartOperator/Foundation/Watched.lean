import VllmColdstartOperator.Foundation.BTreeMap
import VllmColdstartOperator.Foundation.Fairness

/-!
# A cache fed by a watch

A store sends every change to a watcher, which applies them to its cache in
their order and some time later.  The watcher may list the store afresh, and a
restart empties the cache and sends what is stored as changes.  A cached value
was stored before, and a property that what is stored keeps comes to hold of
what is cached.
-/

namespace VllmColdstartOperator.Foundation

open Std Filter

/-- A key's new value, none when it is removed. -/
structure Change (K V : Type) where
  key : K
  value : Option V

section Apply

variable {K V : Type} [Ord K] [TransOrd K]

def BTreeMap.apply (map : BTreeMap K V) (change : Change K V) : BTreeMap K V :=
  match change.value with
  | some value => map.insert change.key value
  | none => map.erase change.key

variable [LawfulEqOrd K] [DecidableEq K]

theorem BTreeMap.lookup_apply (map : BTreeMap K V) (change : Change K V) (key : K) :
    (map.apply change)[key]? = if change.key = key then change.value else map[key]? := by
  unfold BTreeMap.apply
  cases change.value with
  | some value => exact lookup_insert map change.key key value
  | none => exact lookup_erase map change.key key

end Apply

structure Watched (K V : Type) [Ord K] where
  stored : BTreeMap K V
  cache : BTreeMap K V
  undelivered : List (Change K V)

inductive WatchStep (K V : Type) where
  | write (change : Change K V)
  | deliver
  | relist
  | restart

namespace Watched

variable {K V : Type} [Ord K] [TransOrd K]

def empty : Watched K V := ⟨∅, ∅, []⟩

section Next

variable (watched : Watched K V)

def write (change : Change K V) : Watched K V :=
  { watched with
    stored := watched.stored.apply change
    undelivered := watched.undelivered ++ [change] }

def deliver : Watched K V :=
  match watched.undelivered with
  | [] => watched
  | change :: undelivered =>
      { watched with cache := watched.cache.apply change, undelivered := undelivered }

def relist : Watched K V := { watched with cache := watched.stored, undelivered := [] }

/-- What is stored, as the changes that make it from nothing. -/
def listing : List (Change K V) :=
  watched.stored.toList.map fun entry => ⟨entry.1, some entry.2⟩

def restart : Watched K V := { watched with cache := ∅, undelivered := watched.listing }

def next : Option (WatchStep K V) → Watched K V
  | none => watched
  | some (.write change) => watched.write change
  | some .deliver => watched.deliver
  | some .relist => watched.relist
  | some .restart => watched.restart

@[simp] theorem next_deliver : watched.next (some .deliver) = watched.deliver := rfl

theorem deliver_nil (hempty : watched.undelivered = []) : watched.deliver = watched := by
  rw [deliver, hempty]

theorem deliver_cons {change : Change K V} {undelivered : List (Change K V)}
    (hcons : watched.undelivered = change :: undelivered) :
    watched.deliver = ⟨watched.stored, watched.cache.apply change, undelivered⟩ := by
  rw [deliver, hcons]

@[simp] theorem deliver_stored : watched.deliver.stored = watched.stored := by
  cases hundelivered : watched.undelivered with
  | nil => rw [watched.deliver_nil hundelivered]
  | cons change undelivered => rw [watched.deliver_cons hundelivered]

end Next

/-! ## What is shown of a key -/

/-- What is cached of a key and what is yet to be delivered of it. -/
structure Shows (watched : Watched K V) (key : K) (holds : Option V → Prop) : Prop where
  cached : holds watched.cache[key]?
  coming : ∀ change ∈ watched.undelivered, change.key = key → holds change.value

namespace Shows

variable {watched : Watched K V} {key : K} {holds : Option V → Prop}

theorem write (hshows : watched.Shows key holds) {change : Change K V}
    (hholds : change.key = key → holds change.value) :
    (watched.write change).Shows key holds where
  cached := hshows.cached
  coming := by
    intro other hmem hkey
    rcases List.mem_append.mp hmem with hbefore | hlast
    · exact hshows.coming other hbefore hkey
    · obtain rfl := List.mem_singleton.mp hlast
      exact hholds hkey

theorem relist (hstored : holds watched.stored[key]?) : watched.relist.Shows key holds where
  cached := hstored
  coming := fun _ hmem => by cases hmem

variable [LawfulEqOrd K] [DecidableEq K]

theorem deliver (hshows : watched.Shows key holds) : watched.deliver.Shows key holds := by
  cases hundelivered : watched.undelivered with
  | nil => rwa [watched.deliver_nil hundelivered]
  | cons change undelivered =>
      rw [watched.deliver_cons hundelivered]
      constructor
      · dsimp only
        rw [BTreeMap.lookup_apply]
        split
        next hkey => exact hshows.coming change (hundelivered ▸ List.mem_cons_self) hkey
        next => exact hshows.cached
      · intro other hmem
        exact hshows.coming other (hundelivered ▸ List.mem_cons_of_mem _ hmem)

end Shows

theorem write_stored_self [LawfulEqOrd K] [DecidableEq K] (watched : Watched K V)
    {change : Change K V} {key : K} (hkey : change.key = key) :
    (watched.write change).stored[key]? = change.value := by
  change (watched.stored.apply change)[key]? = change.value
  rw [BTreeMap.lookup_apply, if_pos hkey]

theorem next_stored_of_ne [LawfulEqOrd K] [DecidableEq K] (watched : Watched K V)
    {step : Option (WatchStep K V)} {key : K}
    (hother : ∀ change, step = some (.write change) → change.key ≠ key) :
    (watched.next step).stored[key]? = watched.stored[key]? := by
  cases step with
  | none => rfl
  | some step =>
      cases step with
      | write change =>
          change (watched.stored.apply change)[key]? = watched.stored[key]?
          rw [BTreeMap.lookup_apply, if_neg (hother change rfl)]
      | deliver => rw [next_deliver, deliver_stored]
      | relist => rfl
      | restart => rfl

/-! ## What is written is all there is -/

/-- Every value stored, cached or on its way is one allowed at its key. -/
structure Every (watched : Watched K V) (holds : K → V → Prop) : Prop where
  stored : ∀ (key : K) (value : V), watched.stored[key]? = some value → holds key value
  cached : ∀ (key : K) (value : V), watched.cache[key]? = some value → holds key value
  coming : ∀ change ∈ watched.undelivered, ∀ value, change.value = some value →
    holds change.key value

namespace Every

variable {watched : Watched K V} {holds : K → V → Prop}

theorem empty (holds : K → V → Prop) : (empty : Watched K V).Every holds where
  stored := fun key value hstored => by simp [Watched.empty] at hstored
  cached := fun key value hcached => by simp [Watched.empty] at hcached
  coming := fun _ hmem => by cases hmem

variable [LawfulEqOrd K] [DecidableEq K]

theorem apply {map : BTreeMap K V} {change : Change K V}
    (hmap : ∀ (key : K) (value : V), map[key]? = some value → holds key value)
    (hchange : ∀ value, change.value = some value → holds change.key value) (key : K) (value : V)
    (hlookup : (map.apply change)[key]? = some value) : holds key value := by
  rw [BTreeMap.lookup_apply] at hlookup
  split at hlookup
  next hkey => exact hkey ▸ hchange value hlookup
  next => exact hmap key value hlookup

theorem next (hevery : watched.Every holds) {step : Option (WatchStep K V)}
    (hwrite : ∀ change, step = some (.write change) → ∀ value, change.value = some value →
      holds change.key value) : (watched.next step).Every holds := by
  cases step with
  | none => exact hevery
  | some step =>
      cases step with
      | write change =>
          refine ⟨apply hevery.stored (hwrite change rfl), hevery.cached, fun other hmem => ?_⟩
          rcases List.mem_append.mp hmem with hbefore | hlast
          · exact hevery.coming other hbefore
          · obtain rfl := List.mem_singleton.mp hlast
            exact hwrite other rfl
      | deliver =>
          rw [next_deliver]
          cases hundelivered : watched.undelivered with
          | nil => rwa [watched.deliver_nil hundelivered]
          | cons change undelivered =>
              rw [watched.deliver_cons hundelivered]
              have hcoming := hundelivered ▸ hevery.coming
              exact ⟨hevery.stored, apply hevery.cached (hcoming change List.mem_cons_self),
                fun other hmem => hcoming other (List.mem_cons_of_mem _ hmem)⟩
      | relist => exact ⟨hevery.stored, hevery.stored, fun _ hmem => by cases hmem⟩
      | restart =>
          refine ⟨hevery.stored, fun key value hcached => ?_, fun change hmem value hvalue => ?_⟩
          · exact (empty holds).cached key value hcached
          · obtain ⟨⟨found, kept⟩, hentry, rfl⟩ := List.mem_map.mp hmem
            obtain rfl : kept = value := Option.some.inj hvalue
            exact hevery.stored found kept (ExtTreeMap.mem_toList_iff_getElem?_eq_some.mp hentry)

end Every

/-! ## Nothing is lost on the way -/

/-- Once all is delivered the cache is what is stored. -/
def Consistent (watched : Watched K V) : Prop :=
  watched.undelivered.foldl BTreeMap.apply watched.cache = watched.stored

namespace Consistent

theorem empty : (empty : Watched K V).Consistent := rfl

variable [LawfulEqOrd K] [DecidableEq K]

theorem foldl_listing (watched : Watched K V) :
    watched.listing.foldl BTreeMap.apply ∅ = watched.stored := by
  have hcollect : watched.listing.foldl BTreeMap.apply ∅ =
      BTreeMap.collect watched.stored.toList := by
    rw [listing, List.foldl_map]
    rfl
  rw [hcollect]
  refine ExtTreeMap.ext_getElem? fun key => BTreeMap.lookup_collect_eq fun value => ?_
  exact ExtTreeMap.mem_toList_iff_getElem?_eq_some

theorem next {watched : Watched K V} (hconsistent : watched.Consistent)
    (step : Option (WatchStep K V)) : (watched.next step).Consistent := by
  cases step with
  | none => exact hconsistent
  | some step =>
      cases step with
      | write change =>
          change (watched.undelivered ++ [change]).foldl BTreeMap.apply watched.cache =
            watched.stored.apply change
          rw [List.foldl_append, hconsistent]
          rfl
      | deliver =>
          rw [next_deliver]
          cases hundelivered : watched.undelivered with
          | nil => rwa [watched.deliver_nil hundelivered]
          | cons change undelivered =>
              rw [Consistent, hundelivered] at hconsistent
              rw [watched.deliver_cons hundelivered]
              exact hconsistent
      | relist => rfl
      | restart => exact foldl_listing watched

end Consistent

/-! ## Deliveries left -/

def after (watched : Watched K V) (count : Nat) : Watched K V where
  stored := watched.stored
  cache := (watched.undelivered.take count).foldl BTreeMap.apply watched.cache
  undelivered := watched.undelivered.drop count

structure ShowsIn (watched : Watched K V) (key : K) (holds : Option V → Prop)
    (count : Nat) : Prop where
  bounded : count ≤ watched.undelivered.length
  shows : (watched.after count).Shows key holds

noncomputable def deliveriesLeft (watched : Watched K V) (key : K)
    (holds : Option V → Prop) : Nat :=
  sInf {count | watched.ShowsIn key holds count}

section Deliveries

variable {watched : Watched K V} {key : K} {holds : Option V → Prop} {count : Nat}

theorem ShowsIn.left_le (hshows : watched.ShowsIn key holds count) :
    watched.deliveriesLeft key holds ≤ count :=
  Nat.sInf_le hshows

theorem Shows.showsIn (hshows : watched.Shows key holds) : watched.ShowsIn key holds 0 where
  bounded := Nat.zero_le _
  shows := hshows

theorem Consistent.showsIn_left (hconsistent : watched.Consistent)
    (hstored : holds watched.stored[key]?) :
    watched.ShowsIn key holds (watched.deliveriesLeft key holds) := by
  have hall : watched.ShowsIn key holds watched.undelivered.length := by
    refine ⟨le_rfl, ?_⟩
    have hafter : watched.after watched.undelivered.length =
        ⟨watched.stored, watched.stored, []⟩ := by
      rw [after, List.take_length, List.drop_length, hconsistent]
    rw [hafter]
    exact ⟨hstored, fun _ hmem => by cases hmem⟩
  exact Nat.sInf_mem ⟨_, hall⟩

theorem ShowsIn.write (hshows : watched.ShowsIn key holds count) {change : Change K V}
    (hholds : change.key = key → holds change.value) :
    (watched.write change).ShowsIn key holds count := by
  constructor
  · refine hshows.bounded.trans ?_
    rw [Watched.write, List.length_append]
    exact Nat.le_add_right _ _
  · have hafter : (watched.write change).after count = (watched.after count).write change := by
      rw [after, Watched.write]
      dsimp only
      rw [List.take_append_of_le_length hshows.bounded,
        List.drop_append_of_le_length hshows.bounded]
      rfl
    rw [hafter]
    exact hshows.shows.write hholds

theorem ShowsIn.deliver_succ (hshows : watched.ShowsIn key holds (count + 1)) :
    watched.deliver.ShowsIn key holds count := by
  cases hundelivered : watched.undelivered with
  | nil =>
      have hbounded := hshows.bounded
      rw [hundelivered] at hbounded
      cases hbounded
  | cons change undelivered =>
      have hbounded := hshows.bounded
      have hafter := hshows.shows
      rw [hundelivered] at hbounded
      rw [after, hundelivered] at hafter
      rw [watched.deliver_cons hundelivered]
      exact ⟨Nat.le_of_succ_le_succ hbounded, hafter⟩

end Deliveries

/-! ## Runs -/

section Run

variable {states : Nat → Watched K V} {steps : Nat → Option (WatchStep K V)} {key : K}
  {holds : Option V → Prop} [LawfulEqOrd K] [DecidableEq K]

theorem consistent_run (hstart : (states 0).Consistent)
    (hnext : ∀ time, states (time + 1) = (states time).next (steps time)) (time : Nat) :
    (states time).Consistent := by
  induction time with
  | zero => exact hstart
  | succ time ih =>
      rw [hnext]
      exact ih.next (steps time)

/-- What is stored of a key from some time on comes to be what is cached. -/
theorem eventually_shows (hstart : (states 0).Consistent)
    (hnext : ∀ time, states (time + 1) = (states time).next (steps time))
    (hdelivers : ∃ᶠ time in atTop, steps time = some .deliver)
    (hruns : ∀ᶠ time in atTop, steps time ≠ some .restart)
    (hstored : ∀ᶠ time in atTop, holds (states time).stored[key]?) :
    ∀ᶠ time in atTop, (states time).Shows key holds := by
  have hlater : ∀ᶠ time in atTop, holds (states (time + 1)).stored[key]? :=
    (tendsto_add_atTop_nat 1).eventually hstored
  refine @eventually_of_rank _ _ (fun time => (states time).deliveriesLeft key holds)
    hdelivers ?_ ?_ ?_
  · filter_upwards [hstored] with time hnow hdeliver
    rw [hnext, hdeliver, next_deliver]
    have hleft := (consistent_run hstart hnext time).showsIn_left hnow
    cases hcount : (states time).deliveriesLeft key holds with
    | zero =>
        rw [hcount] at hleft
        exact .inr hleft.shows.deliver
    | succ count =>
        rw [hcount] at hleft
        exact .inl (Nat.lt_succ_of_le hleft.deliver_succ.left_le)
  · filter_upwards [hstored, hlater, hruns] with time hnow hthen hruns hother
    have hleft := (consistent_run hstart hnext time).showsIn_left hnow
    rw [hnext] at hthen ⊢
    cases hstep : steps time with
    | none => exact le_rfl
    | some step =>
        rw [hstep] at hthen hother hruns
        cases step with
        | write change =>
            refine (hleft.write fun hkey => ?_).left_le
            exact (states time).write_stored_self hkey ▸ hthen
        | deliver => exact absurd rfl hother
        | relist => exact (Shows.relist hnow).showsIn.left_le.trans (Nat.zero_le _)
        | restart => exact absurd rfl hruns
  · filter_upwards [hlater, hruns] with time hthen hruns hshows
    rw [hnext] at hthen ⊢
    cases hstep : steps time with
    | none => exact hshows
    | some step =>
        rw [hstep] at hthen hruns
        cases step with
        | write change =>
            exact hshows.write fun hkey => (states time).write_stored_self hkey ▸ hthen
        | deliver => exact hshows.deliver
        | relist => exact Shows.relist hthen
        | restart => exact absurd rfl hruns

theorem shows_past (hstart : states 0 = empty)
    (hnext : ∀ time, states (time + 1) = (states time).next (steps time)) (key : K)
    (time : Nat) :
    (states time).Shows key fun value =>
      ∃ earlier ≤ time, (states earlier).stored[key]? = value := by
  induction time with
  | zero =>
      rw [hstart]
      exact ⟨⟨0, le_rfl, by rw [hstart]; rfl⟩, fun _ hmem => by cases hmem⟩
  | succ time ih =>
      have hlonger : (states time).Shows key fun value =>
          ∃ earlier ≤ time + 1, (states earlier).stored[key]? = value := by
        have hmono : ∀ value, (∃ earlier ≤ time, (states earlier).stored[key]? = value) →
            ∃ earlier ≤ time + 1, (states earlier).stored[key]? = value := by
          rintro value ⟨earlier, hle, hvalue⟩
          exact ⟨earlier, Nat.le_succ_of_le hle, hvalue⟩
        exact ⟨hmono _ ih.cached, fun change hmem hkey => hmono _ (ih.coming change hmem hkey)⟩
      have hafter := hnext time
      cases hstep : steps time with
      | none =>
          rw [hstep] at hafter
          rw [hafter]
          exact hlonger
      | some step =>
          rw [hstep] at hafter
          cases step with
          | write change =>
              rw [hafter]
              refine hlonger.write fun hkey => ⟨time + 1, le_rfl, ?_⟩
              rw [hafter]
              exact (states time).write_stored_self hkey
          | deliver =>
              rw [hafter]
              exact hlonger.deliver
          | relist =>
              rw [hafter]
              exact Shows.relist ⟨time, Nat.le_succ time, rfl⟩
          | restart =>
              rw [hafter]
              constructor
              · exact ⟨0, Nat.zero_le _, by rw [hstart]; rfl⟩
              · intro change hmem hkey
                obtain ⟨⟨found, value⟩, hentry, rfl⟩ := List.mem_map.mp hmem
                obtain rfl : found = key := hkey
                have hstored := ExtTreeMap.mem_toList_iff_getElem?_eq_some.mp hentry
                exact ⟨time, Nat.le_succ time, hstored⟩

end Run

end Watched

end VllmColdstartOperator.Foundation
