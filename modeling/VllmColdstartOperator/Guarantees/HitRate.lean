import VllmColdstartOperator.Guarantees.Deltas
import VllmColdstartOperator.Guarantees.Join
import VllmColdstartOperator.Guarantees.Signals
import VllmColdstartOperator.Reporter.Report

/-!
# The cache hit rate and engine restarts

Every hit is a query, so what an engine gains between two scrapes is a rate.  A
restart sets both counters to zero, and a scrape that still finds them above the
baseline counts what is no gain: the engine has then lost misses, and hits gained
are no longer bounded by queries gained.
-/

namespace VllmColdstartOperator

open Foundation

/-! ## Engines and their scrapes -/

/-- The prefix-cache counters of an engine; every hit is a query. -/
structure CacheCounters where
  hits : Nat
  queries : Nat
  hit : hits ≤ queries
  deriving DecidableEq, Repr

namespace CacheCounters

def fresh : CacheCounters := ⟨0, 0, le_rfl⟩

def misses (counters : CacheCounters) : Nat := counters.queries - counters.hits

def serve (counters : CacheCounters) (hits queries : Nat) (hit : hits ≤ queries) :
    CacheCounters :=
  ⟨counters.hits + hits, counters.queries + queries, Nat.add_le_add counters.hit hit⟩

end CacheCounters

inductive CacheEvent where
  | served (url : String) (hits queries : Nat) (hit : hits ≤ queries)
  | restart (url : String)
  deriving DecidableEq, Repr

def CacheEvent.apply (engines : String → CacheCounters) : CacheEvent → String → CacheCounters
  | .served url hits queries hit =>
      Function.update engines url ((engines url).serve hits queries hit)
  | .restart url => Function.update engines url .fresh

/-- The engines when the visit of that number reads its target; events come before
each visit. -/
def enginesAt (start : String → CacheCounters) (events : Nat → List CacheEvent) (visit : Nat) :
    String → CacheCounters :=
  run (fun events engines => events.foldl CacheEvent.apply engines) events start (visit + 1)

/-- A run of the reporter beside its engines.  The visits of all rounds are numbered
in their order; a visit that fails has no body or one without the counters, and a
body with the counters shows those of its target. -/
structure CacheHistory where
  targets : List String
  start : String → CacheCounters
  events : Nat → List CacheEvent
  bodies : Nat → Option String
  devices : Nat → List (Option Device)
  measuredAt : Nat → String
  shown : ∀ visit url, targets[visit % targets.length]? = some url →
    ∀ read ∈ counters (F := Float) (bodies visit),
      read.1 = Double.ofNat (enginesAt start events visit url).hits ∧
        read.2.1 = Double.ofNat (enginesAt start events visit url).queries

namespace CacheHistory

variable (history : CacheHistory)

def engine (url : String) (visit : Nat) : CacheCounters :=
  enginesAt history.start history.events visit url

def visitOf (round position : Nat) : Nat := round * history.targets.length + position

def sourceRound (round : Nat) : SourceRound :=
  ⟨fun position => history.bodies (history.visitOf round position), history.devices round⟩

def source (round : Nat) : Real Float :=
  run Real.round history.sourceRound (.fresh history.targets) round

def signals (round : Nat) : Signals :=
  ((history.source round).sample (history.sourceRound round).bodies
    (history.sourceRound round).devices).2

def retention (rounds : Nat) : Retention :=
  run (fun round retention => retention.update (history.signals round) (history.measuredAt round))
    id .empty rounds

/-- The rates of the rounds so far are rates, and so is whatever was retained. -/
structure RatesInDomain (rounds : Nat) : Prop where
  yielded : ∀ round < rounds, ∀ rate, (history.signals round).kvCacheHitRate = some rate →
    hitRateDomain rate = true
  retained : ∀ round ≤ rounds, ∀ rate measuredAt,
    (history.retention round).lastHitRate = some (rate, measuredAt) → hitRateDomain rate = true

/-! ## What a round counts -/

def answered (url : String) (visit : Nat) : Bool :=
  decide (history.targets[visit % history.targets.length]? = some url) &&
    (counters (F := Float) (history.bodies visit)).isSome

def lastAnswer (url : String) (visit : Nat) : Option (Counters Float) :=
  (lastBefore (history.answered url) visit).bind fun earlier => counters (history.bodies earlier)

def previousAnswer (url : String) (visit : Nat) : Option Nat :=
  if history.answered url visit then lastBefore (history.answered url) visit else none

/-- The counters of a target at its last answer and at this one, when neither went down. -/
def counted (visit : Nat) : Option (CacheCounters × CacheCounters) := do
  let url ← history.targets[visit % history.targets.length]?
  let earlier ← history.previousAnswer url visit
  let before := history.engine url earlier
  let now := history.engine url visit
  if before.hits ≤ now.hits ∧ before.queries ≤ now.queries then some (before, now) else none

def countedUpTo (round positions : Nat) : List (CacheCounters × CacheCounters) :=
  (List.range positions).filterMap fun position => history.counted (history.visitOf round position)

def countedIn (round : Nat) : List (CacheCounters × CacheCounters) :=
  history.countedUpTo round history.targets.length

end CacheHistory

def hitsGained (interval : CacheCounters × CacheCounters) : Nat :=
  interval.2.hits - interval.1.hits

def queriesGained (interval : CacheCounters × CacheCounters) : Nat :=
  interval.2.queries - interval.1.queries

def totalOf (counted : List (CacheCounters × CacheCounters))
    (number : CacheCounters × CacheCounters → Nat) : Nat :=
  (counted.map number).sum

section Total

variable {part whole : List (CacheCounters × CacheCounters)}
  {number : CacheCounters × CacheCounters → Nat}

theorem totalOf_append :
    totalOf (part ++ whole) number = totalOf part number + totalOf whole number := by
  rw [totalOf, List.map_append, List.sum_append, totalOf, totalOf]

@[simp] theorem totalOf_nil : totalOf [] number = 0 := rfl

@[simp] theorem totalOf_singleton (interval : CacheCounters × CacheCounters) :
    totalOf [interval] number = number interval := Nat.add_zero _

theorem totalOf_le_of_sublist (hpart : part.Sublist whole) :
    totalOf part number ≤ totalOf whole number :=
  (hpart.map number).sum_le_sum fun _ _ => Nat.zero_le _

end Total

namespace CacheHistory

variable (history : CacheHistory)

/-- The numbers of a round are among the whole numbers a double tells apart. -/
structure RoundExact (round : Nat) : Prop where
  read : ∀ position < history.targets.length, ∀ url,
    history.answered url (history.visitOf round position) = true →
      (history.engine url (history.visitOf round position)).queries ≤ 2 ^ 53
  hits : totalOf (history.countedIn round) hitsGained ≤ 2 ^ 53
  queries : totalOf (history.countedIn round) queriesGained ≤ 2 ^ 53

/-- No target the round counts restarted since its last answer. -/
def Unrestarted (round : Nat) : Prop :=
  ∀ position < history.targets.length, ∀ url earlier,
    (history.counted (history.visitOf round position)).isSome = true →
    history.previousAnswer url (history.visitOf round position) = some earlier →
    ∀ between, earlier < between → between ≤ history.visitOf round position →
      CacheEvent.restart url ∉ history.events between

/-- The counted targets have not lost misses since their last answers, up to what
the two roundings of the quotient hide. -/
def Balanced (round : Nat) : Prop :=
  0 < totalOf (history.countedIn round) queriesGained →
    2 ^ 53 * totalOf (history.countedIn round) (fun interval => interval.1.misses) ≤
      2 ^ 53 * totalOf (history.countedIn round) (fun interval => interval.2.misses) +
        (2 ^ 29 + 1) * totalOf (history.countedIn round) queriesGained

section

variable {history}

theorem answered_iff {url : String} {visit : Nat} : history.answered url visit = true ↔
    history.targets[visit % history.targets.length]? = some url ∧
      ∃ read, counters (F := Float) (history.bodies visit) = some read := by
  rw [answered, Bool.and_eq_true, decide_eq_true_iff, Option.isSome_iff_exists]

theorem read_of_answered {url : String} {visit : Nat}
    (hanswered : history.answered url visit = true) :
    ∃ tokens, counters (F := Float) (history.bodies visit) =
      some (Double.ofNat (history.engine url visit).hits,
        Double.ofNat (history.engine url visit).queries, tokens) := by
  obtain ⟨htarget, ⟨h, q, tokens⟩, hread⟩ := answered_iff.mp hanswered
  obtain ⟨rfl, rfl⟩ := history.shown visit url htarget (h, q, tokens) hread
  exact ⟨tokens, hread⟩

theorem cacheDelta_eq {url : String} {visit : Nat}
    (htarget : history.targets[visit % history.targets.length]? = some url)
    (hexact : ∀ earlier ≤ visit, history.answered url earlier = true →
      (history.engine url earlier).queries ≤ 2 ^ 53) :
    cacheDelta (history.lastAnswer url visit) (counters (history.bodies visit)) =
      (history.counted visit).map fun interval =>
        (Double.ofNat (hitsGained interval), Double.ofNat (queriesGained interval)) := by
  rw [counted, htarget, lastAnswer]
  dsimp only [Option.bind_eq_bind, Option.bind_some]
  rw [previousAnswer]
  cases hanswered : history.answered url visit with
  | false =>
      have hnone : counters (F := Float) (history.bodies visit) = none := by
        by_contra hsome
        rw [answered_iff.mpr ⟨htarget, Option.ne_none_iff_exists'.mp hsome⟩] at hanswered
        cases hanswered
      rw [hnone]
      rfl
  | true =>
      obtain ⟨tokens, hread⟩ := read_of_answered hanswered
      rw [if_pos rfl, hread]
      cases hlast : lastBefore (history.answered url) visit with
      | none => rfl
      | some earlier =>
          obtain ⟨hlt, hbefore⟩ := lastBefore_eq_some hlast
          obtain ⟨tokensBefore, hreadBefore⟩ := read_of_answered hbefore
          have hqueries := hexact visit le_rfl hanswered
          have hqueriesBefore := hexact earlier hlt.le hbefore
          have hhits := (history.engine url visit).hit.trans hqueries
          have hhitsBefore := (history.engine url earlier).hit.trans hqueriesBefore
          dsimp only [Option.bind_some]
          rw [hreadBefore, cacheDelta]
          dsimp only [Option.bind_eq_bind, Option.bind_some]
          rw [increase_ofNat hhitsBefore hhits, increase_ofNat hqueriesBefore hqueries]
          by_cases hle : (history.engine url earlier).hits ≤ (history.engine url visit).hits
          · by_cases hleQueries :
              (history.engine url earlier).queries ≤ (history.engine url visit).queries
            · simp [hle, hleQueries, hitsGained, queriesGained]
            · simp [hleQueries]
          · simp [hle]

/-! ## The sums of a round -/

structure Tracks (history : CacheHistory) (round positions : Nat) (sums : ScrapeSums Float) :
    Prop where
  prev : ∀ url, sums.scrape.prev[url]? = history.lastAnswer url (history.visitOf round positions)
  hits : sums.hitsDelta = Double.ofNat (totalOf (history.countedUpTo round positions) hitsGained)
  queries : sums.queriesDelta =
    Double.ofNat (totalOf (history.countedUpTo round positions) queriesGained)
  counted : sums.haveDelta = !(history.countedUpTo round positions).isEmpty

theorem visitOf_mod {round position : Nat} (hlt : position < history.targets.length) :
    history.visitOf round position % history.targets.length = position := by
  rw [visitOf, Nat.mul_add_mod', Nat.mod_eq_of_lt hlt]

theorem countedUpTo_succ (round positions : Nat) : history.countedUpTo round (positions + 1) =
    history.countedUpTo round positions ++
      (history.counted (history.visitOf round positions)).toList := by
  rw [countedUpTo, countedUpTo, List.range_succ, List.filterMap_append]
  rfl

theorem countedUpTo_sublist (round : Nat) {positions : Nat}
    (hle : positions ≤ history.targets.length) :
    List.Sublist (history.countedUpTo round positions) (history.countedIn round) :=
  (List.range_sublist.mpr hle).filterMap _

theorem queries_le {round position : Nat} (hposition : position < history.targets.length)
    (hexact : ∀ earlier ≤ round, history.RoundExact earlier) {url : String} {earlier : Nat}
    (hle : earlier ≤ history.visitOf round position)
    (hanswered : history.answered url earlier = true) :
    (history.engine url earlier).queries ≤ 2 ^ 53 := by
  have hpos : 0 < history.targets.length := Nat.zero_lt_of_lt hposition
  have hround : earlier / history.targets.length ≤ round := by
    rw [visitOf] at hle
    apply Nat.le_of_lt_succ
    rw [Nat.div_lt_iff_lt_mul hpos, Nat.succ_mul]
    omega
  have hvisit : history.visitOf (earlier / history.targets.length)
      (earlier % history.targets.length) = earlier := Nat.div_add_mod' earlier _
  have hread := (hexact _ hround).read _ (Nat.mod_lt earlier hpos) url
  rw [hvisit] at hread
  exact hread hanswered

theorem Tracks.prev_visit {round position : Nat} {sums : ScrapeSums Float}
    (htracks : history.Tracks round position sums) {url : String}
    (htarget : history.targets[history.visitOf round position % history.targets.length]? =
      some url) (other : String) :
    (sums.visit url (history.bodies (history.visitOf round position))).scrape.prev[other]? =
      history.lastAnswer other (history.visitOf round position + 1) := by
  rw [visit_prev, htracks.prev other, lastAnswer, lastAnswer, lastBefore]
  by_cases hother : url = other
  · subst hother
    cases hread : counters (F := Float) (history.bodies (history.visitOf round position)) with
    | none => simp [answered, hread]
    | some read =>
        rw [if_pos rfl, if_pos (answered_iff.mpr ⟨htarget, read, hread⟩), Option.bind_some, hread]
        rfl
  · have hsilent : history.answered other (history.visitOf round position) = false := by
      simp [answered, htarget, hother]
    rw [if_neg hother, if_neg (by simp [hsilent])]

theorem Tracks.visit {round position : Nat} {sums : ScrapeSums Float}
    (htracks : history.Tracks round position sums) {url : String}
    (hurl : history.targets[position]? = some url)
    (hexact : ∀ earlier ≤ round, history.RoundExact earlier) :
    history.Tracks round (position + 1)
      (sums.visit url (history.bodies (history.visitOf round position))) := by
  have hposition := (List.getElem?_eq_some_iff.mp hurl).1
  have htarget : history.targets[history.visitOf round position % history.targets.length]? =
      some url := by
    rw [visitOf_mod hposition, hurl]
  have hround := hexact round le_rfl
  have hprefix := history.countedUpTo_sublist round hposition
  have hhits := (totalOf_le_of_sublist hprefix).trans hround.hits
  have hqueries := (totalOf_le_of_sublist hprefix).trans hround.queries
  have hcache := visit_cache sums url (history.bodies (history.visitOf round position))
  rw [htracks.prev url, cacheDelta_eq htarget fun _ hle => queries_le hposition hexact hle,
    htracks.hits, htracks.queries, htracks.counted] at hcache
  rw [countedUpTo_succ, totalOf_append] at hhits hqueries
  have hsums : ((sums.visit url (history.bodies (history.visitOf round position))).hitsDelta,
      (sums.visit url (history.bodies (history.visitOf round position))).queriesDelta,
      (sums.visit url (history.bodies (history.visitOf round position))).haveDelta) =
        (Double.ofNat (totalOf (history.countedUpTo round (position + 1)) hitsGained),
          Double.ofNat (totalOf (history.countedUpTo round (position + 1)) queriesGained),
          !(history.countedUpTo round (position + 1)).isEmpty) := by
    rw [hcache, countedUpTo_succ, totalOf_append, totalOf_append]
    cases hcounted : history.counted (history.visitOf round position) with
    | none => simp
    | some interval =>
        rw [hcounted, Option.toList_some, totalOf_singleton] at hhits hqueries
        simp [F64.double_add hhits, F64.double_add hqueries]
  obtain ⟨hhitsDelta, hothers⟩ := Prod.mk.inj hsums
  obtain ⟨hqueriesDelta, hhave⟩ := Prod.mk.inj hothers
  exact ⟨htracks.prev_visit htarget, hhitsDelta, hqueriesDelta, hhave⟩

theorem tracks_sums {round : Nat} {scrape : VllmScrape Float}
    (htargets : scrape.targets = history.targets)
    (hprev : ∀ url, scrape.prev[url]? = history.lastAnswer url (history.visitOf round 0))
    (hexact : ∀ earlier ≤ round, history.RoundExact earlier) :
    history.Tracks round history.targets.length
      (scrape.sums (history.sourceRound round).bodies) := by
  have hprefix : ∀ positions ≤ history.targets.length, history.Tracks round positions
      ((history.targets.zipIdx.take positions).foldl
        (fun sums visit => sums.visit visit.1 ((history.sourceRound round).bodies visit.2))
        ⟨scrape, 0, Double.ofNat 0, Double.ofNat 0, false, none, none, none⟩) := by
    intro positions hle
    induction positions with
    | zero => exact ⟨hprev, rfl, rfl, rfl⟩
    | succ position ih =>
        have hurl : history.targets[position]? = some history.targets[position] :=
          List.getElem?_eq_getElem hle
        rw [List.take_add_one, List.getElem?_zipIdx, hurl, List.foldl_append]
        have hvisit := (ih (Nat.le_of_succ_le hle)).visit hurl hexact
        simpa [sourceRound] using hvisit
  have hall := hprefix history.targets.length le_rfl
  rw [List.take_of_length_le (by simp)] at hall
  rw [VllmScrape.sums, htargets]
  exact hall

theorem source_scrape {rounds : Nat} (hexact : ∀ round < rounds, history.RoundExact round) :
    ∃ scrape : VllmScrape Float, (history.source rounds).scrape = some scrape ∧
      scrape.targets = history.targets ∧
      ∀ url, scrape.prev[url]? = history.lastAnswer url (history.visitOf rounds 0) := by
  induction rounds with
  | zero =>
      refine ⟨.new history.targets, rfl, rfl, fun url => ?_⟩
      rw [visitOf, Nat.zero_mul]
      exact Std.ExtTreeMap.getElem?_empty
  | succ round ih =>
      obtain ⟨scrape, hscrape, htargets, hprev⟩ :=
        ih fun earlier hlt => hexact earlier (Nat.lt_succ_of_lt hlt)
      have htracks := tracks_sums htargets hprev fun earlier hle =>
        hexact earlier (Nat.lt_succ_of_le hle)
      refine ⟨(scrape.sample (history.sourceRound round).bodies).1, ?_, ?_, fun url => ?_⟩
      · rw [source, run_succ, Real.round, Real.sample]
        change Option.map _ (Option.map _ (history.source round).scrape) = _
        rw [hscrape]
        rfl
      · rw [VllmScrape.sample_targets, htargets]
      · have hnext : history.visitOf (round + 1) 0 =
            history.visitOf round history.targets.length := by
          rw [visitOf, visitOf, Nat.succ_mul, Nat.add_zero]
        rw [hnext]
        exact htracks.prev url

/-- The rate of a round, in the gains it counts. -/
theorem rate_eq {round : Nat} (hexact : ∀ earlier ≤ round, history.RoundExact earlier) :
    (history.signals round).kvCacheHitRate =
      if 0 < totalOf (history.countedIn round) queriesGained then
        some (Double.toF32 (Double.div (F := Float)
          (Double.ofNat (totalOf (history.countedIn round) hitsGained))
          (Double.ofNat (totalOf (history.countedIn round) queriesGained))))
      else none := by
  obtain ⟨scrape, hscrape, htargets, hprev⟩ :=
    source_scrape fun earlier hlt => hexact earlier (Nat.le_of_lt hlt)
  have htracks := tracks_sums htargets hprev hexact
  rw [signals, Real.sample, hscrape]
  change (if (scrape.sums (history.sourceRound round).bodies).haveDelta &&
      Double.lt (Double.ofNat 0) (scrape.sums (history.sourceRound round).bodies).queriesDelta then
        some (Double.toF32 (Double.div
          (scrape.sums (history.sourceRound round).bodies).hitsDelta
          (scrape.sums (history.sourceRound round).bodies).queriesDelta))
      else none) = _
  have hall : history.countedUpTo round history.targets.length = history.countedIn round := rfl
  rw [htracks.hits, htracks.queries, htracks.counted, hall,
    F64.double_zero_lt (hexact round le_rfl).queries]
  cases hcounted : history.countedIn round with
  | nil => simp
  | cons interval counted => simp

/-! ## Rates and misses -/

theorem counted_eq_some {visit : Nat} {interval : CacheCounters × CacheCounters}
    (hcounted : history.counted visit = some interval) :
    (∃ url earlier, history.previousAnswer url visit = some earlier ∧
      interval = (history.engine url earlier, history.engine url visit)) ∧
    interval.1.hits ≤ interval.2.hits ∧ interval.1.queries ≤ interval.2.queries := by
  obtain ⟨url, -, hfrom⟩ := Option.bind_eq_some_iff.mp hcounted
  obtain ⟨earlier, hearlier, hinterval⟩ := Option.bind_eq_some_iff.mp hfrom
  dsimp only at hinterval
  split at hinterval
  next hboth =>
    cases hinterval
    exact ⟨⟨url, earlier, hearlier, rfl⟩, hboth⟩
  next => cases hinterval

theorem gains_balance (round : Nat) :
    totalOf (history.countedIn round) hitsGained +
        totalOf (history.countedIn round) (fun interval => interval.2.misses) =
      totalOf (history.countedIn round) queriesGained +
        totalOf (history.countedIn round) (fun interval => interval.1.misses) := by
  have hpointwise : ∀ interval ∈ history.countedIn round,
      hitsGained interval + interval.2.misses = queriesGained interval + interval.1.misses := by
    intro interval hmem
    obtain ⟨position, -, hcounted⟩ := List.mem_filterMap.mp hmem
    obtain ⟨-, hhits, hqueries⟩ := counted_eq_some hcounted
    have hbefore := interval.1.hit
    have hnow := interval.2.hit
    rw [hitsGained, queriesGained, CacheCounters.misses, CacheCounters.misses]
    omega
  rw [totalOf, totalOf, totalOf, totalOf, ← List.sum_map_add, ← List.sum_map_add,
    List.map_congr_left hpointwise]

theorem rate_in_domain_iff {round : Nat} (hexact : ∀ earlier ≤ round, history.RoundExact earlier) :
    (∀ rate, (history.signals round).kvCacheHitRate = some rate → hitRateDomain rate = true) ↔
      history.Balanced round := by
  rw [rate_eq hexact]
  by_cases hpos : 0 < totalOf (history.countedIn round) queriesGained
  · obtain ⟨hfinite, hzero, hone⟩ :=
      F64.toF32_div hpos (hexact round le_rfl).hits (hexact round le_rfl).queries rfl
    have hbalance := history.gains_balance round
    have hdomain : hitRateDomain (Double.toF32 (Double.div (F := Float)
        (Double.ofNat (totalOf (history.countedIn round) hitsGained))
        (Double.ofNat (totalOf (history.countedIn round) queriesGained)))) = true ↔
          history.Balanced round := by
      rw [hitRateDomain, hfinite, hzero, Bool.true_and, Bool.true_and, hone, Balanced]
      constructor
      · intro hrate _
        omega
      · intro hmisses
        have hmisses := hmisses hpos
        omega
    rw [if_pos hpos, ← hdomain]
    constructor
    · exact fun hall => hall _ rfl
    · rintro hrate rate hsome
      cases hsome
      exact hrate
  · rw [if_neg hpos]
    exact iff_of_true (fun rate hnone => nomatch hnone) fun habsurd => absurd habsurd hpos

theorem retained_in_domain {rounds : Nat}
    (hyielded : ∀ round < rounds, ∀ rate, (history.signals round).kvCacheHitRate = some rate →
      hitRateDomain rate = true) :
    ∀ round ≤ rounds, ∀ rate measuredAt,
      (history.retention round).lastHitRate = some (rate, measuredAt) →
        hitRateDomain rate = true := by
  intro round hle
  induction round with
  | zero => exact fun rate measuredAt hempty => nomatch hempty
  | succ round ih =>
      intro rate measuredAt hretained
      change retain (history.signals round).kvCacheHitRate (history.measuredAt round)
        (history.retention round).lastHitRate = some (rate, measuredAt) at hretained
      cases hmeasured : (history.signals round).kvCacheHitRate with
      | none =>
          rw [hmeasured] at hretained
          exact ih (Nat.le_of_succ_le hle) rate measuredAt hretained
      | some value =>
          rw [hmeasured] at hretained
          cases hretained
          exact hyielded round hle rate hmeasured

/-! ## Engines that keep running -/

theorem misses_apply (engines : String → CacheCounters) {event : CacheEvent} {url : String}
    (hkept : event ≠ .restart url) : (engines url).misses ≤ (event.apply engines url).misses := by
  cases event with
  | served other hits queries hit =>
      rw [CacheEvent.apply]
      by_cases hurl : url = other
      · subst hurl
        have hbefore := (engines url).hit
        rw [Function.update_self, CacheCounters.serve, CacheCounters.misses, CacheCounters.misses]
        dsimp only
        omega
      · rw [Function.update_of_ne hurl]
  | restart other =>
      have hother : url ≠ other := by
        rintro rfl
        exact hkept rfl
      rw [CacheEvent.apply, Function.update_of_ne hother]

theorem misses_foldl {events : List CacheEvent} {url : String}
    (hkept : CacheEvent.restart url ∉ events) (engines : String → CacheCounters) :
    (engines url).misses ≤ (events.foldl CacheEvent.apply engines url).misses := by
  induction events generalizing engines with
  | nil => exact le_rfl
  | cons event events ih =>
      rw [List.mem_cons, not_or] at hkept
      exact (misses_apply engines (Ne.symm hkept.1)).trans (ih hkept.2 _)

theorem misses_engine {url : String} {earlier visit : Nat} (hle : earlier ≤ visit)
    (hkept : ∀ between, earlier < between → between ≤ visit →
      CacheEvent.restart url ∉ history.events between) :
    (history.engine url earlier).misses ≤ (history.engine url visit).misses := by
  induction visit, hle using Nat.le_induction with
  | base => exact le_rfl
  | succ visit hle ih =>
      have hsofar := ih fun between hlow hhigh => hkept between hlow (Nat.le_succ_of_le hhigh)
      exact hsofar.trans (misses_foldl (hkept (visit + 1) (Nat.lt_succ_of_le hle) le_rfl) _)

/-- Without a restart since their last answers, the targets of a round are balanced. -/
theorem balanced_of_unrestarted {round : Nat} (hkept : history.Unrestarted round) :
    history.Balanced round := by
  intro _
  have hpointwise : ∀ interval ∈ history.countedIn round,
      interval.1.misses ≤ interval.2.misses := by
    intro interval hmem
    obtain ⟨position, hposition, hcounted⟩ := List.mem_filterMap.mp hmem
    obtain ⟨⟨url, earlier, hprevious, rfl⟩, -⟩ := counted_eq_some hcounted
    have hlast := hprevious
    rw [previousAnswer] at hlast
    split at hlast
    next =>
      exact misses_engine (lastBefore_eq_some hlast).1.le
        (hkept position (List.mem_range.mp hposition) url earlier
          (Option.isSome_iff_exists.mpr ⟨_, hcounted⟩) hprevious)
    next => cases hlast
  have hmisses : totalOf (history.countedIn round) (fun interval => interval.1.misses) ≤
      totalOf (history.countedIn round) (fun interval => interval.2.misses) :=
    List.sum_le_sum hpointwise
  exact (Nat.mul_le_mul_left _ hmisses).trans (Nat.le_add_right _ _)

end

end CacheHistory

/-- As long as a round's numbers are exact, its rates are rates when the targets it
counts have not lost misses, and only then. -/
theorem hitRates_in_domain_iff (history : CacheHistory) (rounds : Nat)
    (hexact : ∀ round < rounds, history.RoundExact round) :
    history.RatesInDomain rounds ↔ ∀ round < rounds, history.Balanced round := by
  have hrate : ∀ round < rounds, (∀ rate, (history.signals round).kvCacheHitRate = some rate →
      hitRateDomain rate = true) ↔ history.Balanced round := fun round hlt =>
    CacheHistory.rate_in_domain_iff fun earlier hle => hexact earlier (Nat.lt_of_le_of_lt hle hlt)
  constructor
  · intro hrates round hlt
    exact (hrate round hlt).mp (hrates.yielded round hlt)
  · intro hbalanced
    have hyielded := fun round hlt => (hrate round hlt).mpr (hbalanced round hlt)
    exact ⟨hyielded, CacheHistory.retained_in_domain hyielded⟩

namespace Sample

/-- One engine: a hundred queries miss, of a hundred more half hit, and after a
restart it serves past its old counters. -/
def restartEvents : Nat → List CacheEvent
  | 0 => [.served "u" 0 100 (by decide)]
  | 1 => [.served "u" 50 100 (by decide)]
  | 2 => [.restart "u", .served "u" 151 201 (by decide)]
  | _ => []

def restartBodies : Nat → Option String
  | 0 => some "vllm:prefix_cache_hits 0\nvllm:prefix_cache_queries 100\n"
  | 1 => some "vllm:prefix_cache_hits 50\nvllm:prefix_cache_queries 200\n"
  | 2 => some "vllm:prefix_cache_hits 151\nvllm:prefix_cache_queries 201\n"
  | _ => none

def restartHistory : CacheHistory where
  targets := ["u"]
  start _ := .fresh
  events := restartEvents
  bodies := restartBodies
  devices _ := []
  measuredAt _ := ""
  shown := by
    intro visit url htarget
    have hurl : url = "u" := by
      rw [List.length_singleton, Nat.mod_one] at htarget
      exact (Option.some.inj htarget).symm
    subst hurl
    rcases Nat.lt_or_ge visit 3 with hlt | hge
    · interval_cases visit <;> decide +kernel
    · obtain ⟨later, rfl⟩ := Nat.exists_eq_add_of_le' hge
      exact fun read hread => nomatch hread

theorem restartHistory_exact : ∀ round < 3, restartHistory.RoundExact round := by
  have hread : ∀ visit < 3, (restartHistory.engine "u" visit).queries ≤ 2 ^ 53 := by
    decide
  have hlength : restartHistory.targets.length = 1 := rfl
  intro round hlt
  refine ⟨fun position hposition url hanswered => ?_, ?_, ?_⟩
  · obtain ⟨htarget, -⟩ := CacheHistory.answered_iff.mp hanswered
    rw [hlength, Nat.mod_one] at htarget
    cases Option.some.inj htarget
    rw [hlength, Nat.lt_one_iff] at hposition
    apply hread
    rwa [CacheHistory.visitOf, hlength, hposition, Nat.mul_one]
  · interval_cases round <;> decide +kernel
  · interval_cases round <;> decide +kernel

/-- The rates are rates until the restart. -/
theorem hitRates_in_domain_iff_sample : restartHistory.RatesInDomain 2 := by
  refine (hitRates_in_domain_iff restartHistory 2 fun round hlt =>
    restartHistory_exact round (Nat.lt_succ_of_lt hlt)).mpr ?_
  intro round hlt
  rw [CacheHistory.Balanced]
  interval_cases round <;> decide +kernel

/-- After it, one hundred and one hits are counted for one query, and 101.0 replaces 0.5. -/
theorem hitRates_counterexample :
    (restartHistory.signals 1).kvCacheHitRate = some ⟨0x3f000000#32⟩ ∧
      (restartHistory.signals 2).kvCacheHitRate = some ⟨0x42ca0000#32⟩ ∧
      (restartHistory.retention 2).lastHitRate = some (⟨0x3f000000#32⟩, "") ∧
      (restartHistory.retention 3).lastHitRate = some (⟨0x42ca0000#32⟩, "") ∧
      ¬ restartHistory.RatesInDomain 3 := by
  have hrate : (restartHistory.signals 2).kvCacheHitRate = some ⟨0x42ca0000#32⟩ := by
    decide +kernel
  refine ⟨by decide +kernel, hrate, by decide +kernel, by decide +kernel, fun hrates => ?_⟩
  have hdomain := hrates.yielded 2 (by decide) _ hrate
  revert hdomain
  decide

end Sample

end VllmColdstartOperator
