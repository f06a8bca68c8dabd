import VllmColdstartOperator.Foundation.Counters
import VllmColdstartOperator.Foundation.F64
import VllmColdstartOperator.Foundation.Runs
import VllmColdstartOperator.Reporter.Sources

/-!
# Counter deltas and the events they count

The engines' counters grow with the events they count and a restart sets them to
zero, which a scrape need not notice.  Whatever the history, a delta counts events
since the last scrape only, as long as the counters stay among the whole numbers a
double tells apart.
-/

namespace VllmColdstartOperator

open Foundation

/-! ## Histories -/

inductive CounterSeries where
  | hits
  | queries
  | tokens
  deriving DecidableEq, Repr

/-- A failed scrape is a failed request or a body without the prefix-cache series;
another one may lack the tokens. -/
inductive EngineEvent where
  | count (url : String) (series : CounterSeries) (amount : Nat)
  | restart (url : String)
  | scrape (url : String) (withTokens : Bool)
  | failedScrape (url : String)
  deriving DecidableEq, Repr

/-- The scraper, what the engines expose, and how many events there were. -/
structure CounterWorld where
  scrape : VllmScrape Float
  counter : String → CounterSeries → Nat
  happened : String → CounterSeries → Nat

namespace CounterWorld

def reading (world : CounterWorld) (url : String) (withTokens : Bool) : Counters Float :=
  (Double.ofNat (world.counter url .hits), Double.ofNat (world.counter url .queries),
    if withTokens then some (Double.ofNat (world.counter url .tokens)) else none)

def advance (world : CounterWorld) (url : String) (withTokens : Bool) :
    VllmScrape Float × Option (Float × Float) × Option Float :=
  let (h, q, g) := world.reading url withTokens
  world.scrape.advance url h q g

def bump (counts : String → CounterSeries → Nat) (url : String) (series : CounterSeries)
    (amount : Nat) : String → CounterSeries → Nat :=
  fun other kind =>
    if other = url ∧ kind = series then counts other kind + amount else counts other kind

def step (event : EngineEvent) (world : CounterWorld) : CounterWorld :=
  match event with
  | .count url series amount =>
      { world with
        counter := bump world.counter url series amount
        happened := bump world.happened url series amount }
  | .restart url =>
      { world with counter := fun other series => if other = url then 0
          else world.counter other series }
  | .scrape url withTokens => { world with scrape := (world.advance url withTokens).1 }
  | .failedScrape _ => world

def initial (targets : List String) (counter : String → CounterSeries → Nat) : CounterWorld :=
  ⟨.new targets, counter, fun _ _ => 0⟩

end CounterWorld

def deltaOf (deltas : Option (Float × Float) × Option Float) : CounterSeries → Option Float
  | .hits => deltas.1.map Prod.fst
  | .queries => deltas.1.map Prod.snd
  | .tokens => deltas.2

section History

variable (targets : List String) (start : String → CounterSeries → Nat)
  (events : Nat → EngineEvent)

def counterWorldAt : Nat → CounterWorld :=
  run CounterWorld.step events (.initial targets start)

def readingAt (url : String) (time : Nat) : Option (Counters Float) :=
  match events time with
  | .scrape scraped withTokens =>
      if scraped = url then some ((counterWorldAt targets start events time).reading url withTokens)
      else none
  | _ => none

def deltaAt (url : String) (series : CounterSeries) (time : Nat) : Option Float :=
  match events time with
  | .scrape scraped withTokens =>
      if scraped = url then
        deltaOf ((counterWorldAt targets start events time).advance url withTokens).2 series
      else none
  | _ => none

def isScrapeOf (url : String) (time : Nat) : Bool :=
  match events time with
  | .scrape scraped _ => scraped = url
  | _ => false

def eventsBetween (url : String) (series : CounterSeries) (earlier time : Nat) : Nat :=
  (counterWorldAt targets start events time).happened url series -
    (counterWorldAt targets start events earlier).happened url series

/-- The counters of the target are at most 2^53 whenever it is scraped. -/
def ReadsExactly (url : String) : Prop :=
  ∀ time, isScrapeOf events url time = true → ∀ series,
    (counterWorldAt targets start events time).counter url series ≤ 2 ^ 53

/-- The deltas of a target count events since its last scrape, each once. -/
structure DeltasCount (url : String) : Prop where
  atMost : ∀ time earlier, lastBefore (isScrapeOf events url) time = some earlier →
    ∀ series delta, deltaAt targets start events url series time = some delta →
      ∃ counted ≤ eventsBetween targets start events url series earlier time,
        delta = Double.ofNat counted
  exact : ∀ time earlier withTokens, events time = .scrape url withTokens →
    lastBefore (isScrapeOf events url) time = some earlier →
    (∀ between, earlier < between → between < time → events between ≠ .restart url) →
    ∀ series, (series = .tokens → withTokens = true ∧ events earlier = .scrape url true) →
      deltaAt targets start events url series time =
        some (Double.ofNat (eventsBetween targets start events url series earlier time))
  total : ∀ series horizon,
    ∑ time ∈ Finset.range horizon,
        ((deltaAt targets start events url series time).map F64.value).getD 0 ≤
      ((counterWorldAt targets start events horizon).happened url series : ℚ)

variable {targets : List String} {start : String → CounterSeries → Nat}
  {events : Nat → EngineEvent}

/-! ## The baseline and the history -/

theorem counterWorldAt_succ (time : Nat) :
    counterWorldAt targets start events (time + 1) =
      (counterWorldAt targets start events time).step (events time) := rfl

theorem isScrapeOf_iff {url : String} {time : Nat} : isScrapeOf events url time = true ↔
    ∃ withTokens, events time = .scrape url withTokens := by
  rw [isScrapeOf]
  cases events time with
  | scrape scraped withTokens => simp [eq_comm]
  | count other series amount => simp
  | restart other => simp
  | failedScrape other => simp

variable (targets) (start) (events) in
theorem prev_eq (url : String) (time : Nat) :
    (counterWorldAt targets start events time).scrape.prev[url]? =
      (lastBefore (isScrapeOf events url) time).bind (readingAt targets start events url) := by
  induction time with
  | zero => exact Std.ExtTreeMap.getElem?_empty
  | succ time ih =>
      rw [counterWorldAt_succ, lastBefore]
      cases hevent : events time with
      | scrape scraped withTokens =>
          have hstored : (((counterWorldAt targets start events time).advance scraped
              withTokens).1).prev[url]? = if scraped = url then
                some ((counterWorldAt targets start events time).reading scraped withTokens)
              else (counterWorldAt targets start events time).scrape.prev[url]? :=
            BTreeMap.lookup_insert _ _ _ _
          by_cases hurl : scraped = url
          · have hscrape : isScrapeOf events url time = true :=
              isScrapeOf_iff.mpr ⟨withTokens, hurl ▸ hevent⟩
            dsimp only [CounterWorld.step]
            rw [hstored, if_pos hurl, if_pos hscrape, Option.bind_some, readingAt, hevent]
            simp [hurl]
          · have hscrape : isScrapeOf events url time = false := by
              simp [isScrapeOf, hevent, hurl]
            dsimp only [CounterWorld.step]
            rw [hstored, if_neg hurl, ih, if_neg (by simp [hscrape])]
      | count other series amount => simpa [isScrapeOf, hevent, CounterWorld.step] using ih
      | restart other => simpa [isScrapeOf, hevent, CounterWorld.step] using ih
      | failedScrape other => simpa [isScrapeOf, hevent, CounterWorld.step] using ih

variable (targets) (start) (events) in
theorem countsEvents (url : String) (series : CounterSeries) :
    CountsEvents (fun time => (counterWorldAt targets start events time).counter url series)
      (fun time => (counterWorldAt targets start events time).happened url series)
      fun time => events time = .restart url where
  kept time hkept := by
    rw [counterWorldAt_succ]
    cases hevent : events time with
    | count other kind amount =>
        by_cases hmine : url = other ∧ series = kind
        · exact ⟨amount, by simp [CounterWorld.step, CounterWorld.bump, hmine]⟩
        · exact ⟨0, by simp [CounterWorld.step, CounterWorld.bump, hmine]⟩
    | restart other =>
        have hother : url ≠ other := by
          rintro rfl
          exact hkept hevent
        exact ⟨0, by simp [CounterWorld.step, hother]⟩
    | scrape scraped withTokens => exact ⟨0, rfl, rfl⟩
    | failedScrape other => exact ⟨0, rfl, rfl⟩
  reset time hreset := by
    rw [counterWorldAt_succ, hreset]
    simp [CounterWorld.step]

/-! ## What a delta is -/

theorem increase_ofNat {before now : Nat} (hbefore : before ≤ 2 ^ 53) (hnow : now ≤ 2 ^ 53) :
    increase (F := Float) (Double.ofNat before) (Double.ofNat now) =
      if before ≤ now then some (Double.ofNat (now - before)) else none := by
  rw [increase, F64.double_sub hnow hbefore, F64.double_zero_le (by omega)]
  by_cases hle : before ≤ now
  · have hnonneg : (0 : ℤ) ≤ now - before := by omega
    have hdifference : (now : ℤ) - before = (now - before : ℕ) := by omega
    rw [decide_eq_true hnonneg, if_pos rfl, if_pos hle, hdifference]
    rfl
  · have hneg : ¬ (0 : ℤ) ≤ now - before := by omega
    rw [decide_eq_false hneg, if_neg Bool.false_ne_true, if_neg hle]

/-- The series is there on both sides, and its counters did not go down; hits and
queries go together. -/
def Comparable (before now : CounterSeries → Nat) (tokensBefore tokensNow : Bool) :
    CounterSeries → Prop
  | .tokens => tokensBefore = true ∧ tokensNow = true ∧ before .tokens ≤ now .tokens
  | _ => before .hits ≤ now .hits ∧ before .queries ≤ now .queries

theorem deltaOf_advance {world earlier : CounterWorld} {url : String}
    {tokensBefore tokensNow : Bool} (hexact : ∀ series, world.counter url series ≤ 2 ^ 53)
    (hexactBefore : ∀ series, earlier.counter url series ≤ 2 ^ 53)
    (hprev : world.scrape.prev[url]? = some (earlier.reading url tokensBefore))
    (series : CounterSeries) (delta : Float) :
    deltaOf (world.advance url tokensNow).2 series = some delta ↔
      Comparable (earlier.counter url) (world.counter url) tokensBefore tokensNow series ∧
        delta = Double.ofNat (world.counter url series - earlier.counter url series) := by
  have hincrease : ∀ series, increase (F := Float) (Double.ofNat (earlier.counter url series))
      (Double.ofNat (world.counter url series)) =
        if earlier.counter url series ≤ world.counter url series then
          some (Double.ofNat (world.counter url series - earlier.counter url series)) else none :=
    fun series => increase_ofNat (hexactBefore series) (hexact series)
  have hdeltas : (world.advance url tokensNow).2 =
      (if earlier.counter url .hits ≤ world.counter url .hits ∧
          earlier.counter url .queries ≤ world.counter url .queries then
        some (Double.ofNat (world.counter url .hits - earlier.counter url .hits),
          Double.ofNat (world.counter url .queries - earlier.counter url .queries))
      else none,
      if tokensBefore = true ∧ tokensNow = true ∧
          earlier.counter url .tokens ≤ world.counter url .tokens then
        some (Double.ofNat (world.counter url .tokens - earlier.counter url .tokens))
      else none) := by
    rw [CounterWorld.advance, CounterWorld.reading]
    dsimp only
    rw [VllmScrape.advance, hprev, CounterWorld.reading]
    dsimp only
    rw [hincrease .hits, hincrease .queries]
    congr 1
    · by_cases hhits : earlier.counter url .hits ≤ world.counter url .hits <;>
        by_cases hqueries : earlier.counter url .queries ≤ world.counter url .queries <;>
        simp [hhits, hqueries]
    · cases tokensBefore <;> cases tokensNow <;> simp [hincrease .tokens]
  rw [hdeltas]
  cases series with
  | hits =>
      dsimp only [deltaOf, Comparable]
      split <;> simp_all [eq_comm]
  | queries =>
      dsimp only [deltaOf, Comparable]
      split <;> simp_all [eq_comm]
  | tokens =>
      dsimp only [deltaOf, Comparable]
      split <;> simp_all [eq_comm]

theorem deltaAt_of_scrape {url : String} {time : Nat} {withTokens : Bool}
    (hscrape : events time = .scrape url withTokens) (series : CounterSeries) :
    deltaAt targets start events url series time =
      deltaOf ((counterWorldAt targets start events time).advance url withTokens).2 series := by
  rw [deltaAt, hscrape]
  exact if_pos rfl

theorem readingAt_of_scrape {url : String} {time : Nat} {withTokens : Bool}
    (hscrape : events time = .scrape url withTokens) :
    readingAt targets start events url time =
      some ((counterWorldAt targets start events time).reading url withTokens) := by
  rw [readingAt, hscrape]
  exact if_pos rfl

theorem deltaAt_of_not_scrape {url : String} {time : Nat}
    (hnot : isScrapeOf events url time = false) (series : CounterSeries) :
    deltaAt targets start events url series time = none := by
  rw [deltaAt]
  cases hevent : events time with
  | scrape scraped withTokens =>
      rw [isScrapeOf, hevent] at hnot
      exact if_neg (by simpa using hnot)
  | count other kind amount => rfl
  | restart other => rfl
  | failedScrape other => rfl

theorem deltaAt_first {url : String} {time : Nat}
    (hfirst : lastBefore (isScrapeOf events url) time = none) (series : CounterSeries) :
    deltaAt targets start events url series time = none := by
  cases hscrape : isScrapeOf events url time with
  | false => exact deltaAt_of_not_scrape hscrape series
  | true =>
      obtain ⟨withTokens, hevent⟩ := isScrapeOf_iff.mp hscrape
      have hprev := prev_eq targets start events url time
      rw [hfirst, Option.bind_none] at hprev
      rw [deltaAt_of_scrape hevent, CounterWorld.advance]
      dsimp only
      rw [VllmScrape.advance, hprev]
      cases series <;> rfl

theorem deltaAt_missing {url : String} {time earlier : Nat}
    (hlast : lastBefore (isScrapeOf events url) time = some earlier)
    (hmissing : events earlier = .scrape url false) :
    deltaAt targets start events url .tokens time = none := by
  cases hscrape : isScrapeOf events url time with
  | false => exact deltaAt_of_not_scrape hscrape .tokens
  | true =>
      obtain ⟨withTokens, hevent⟩ := isScrapeOf_iff.mp hscrape
      have hprev := prev_eq targets start events url time
      rw [hlast, Option.bind_some, readingAt_of_scrape hmissing] at hprev
      rw [deltaAt_of_scrape hevent, CounterWorld.advance]
      dsimp only
      rw [VllmScrape.advance, hprev]
      cases withTokens <;> rfl

section Exact

variable {url : String} (hexact : ReadsExactly targets start events url)

include hexact

theorem deltaAt_eq_some_iff {time earlier : Nat} {tokensBefore tokensNow : Bool}
    (hnow : events time = .scrape url tokensNow)
    (hbefore : events earlier = .scrape url tokensBefore)
    (hlast : lastBefore (isScrapeOf events url) time = some earlier) (series : CounterSeries)
    (delta : Float) :
    deltaAt targets start events url series time = some delta ↔
      Comparable ((counterWorldAt targets start events earlier).counter url)
          ((counterWorldAt targets start events time).counter url) tokensBefore tokensNow series ∧
        delta = Double.ofNat ((counterWorldAt targets start events time).counter url series -
          (counterWorldAt targets start events earlier).counter url series) := by
  have hprev := prev_eq targets start events url time
  rw [hlast, Option.bind_some, readingAt_of_scrape hbefore] at hprev
  rw [deltaAt_of_scrape hnow]
  exact deltaOf_advance (hexact time (isScrapeOf_iff.mpr ⟨_, hnow⟩))
    (hexact earlier (isScrapeOf_iff.mpr ⟨_, hbefore⟩)) hprev series delta

/-- A delta is what the counter grew by since the last scrape. -/
theorem deltaAt_eq_grown {time : Nat} {series : CounterSeries} {delta : Float}
    (hdelta : deltaAt targets start events url series time = some delta) :
    delta = Double.ofNat (CountsEvents.grown
        (fun time => (counterWorldAt targets start events time).counter url series)
        (isScrapeOf events url) time) ∧
      CountsEvents.grown
        (fun time => (counterWorldAt targets start events time).counter url series)
        (isScrapeOf events url) time ≤ 2 ^ 53 := by
  have hscrape : isScrapeOf events url time = true := by
    by_contra hnot
    rw [deltaAt_of_not_scrape (by simpa using hnot)] at hdelta
    cases hdelta
  obtain ⟨tokensNow, hnow⟩ := isScrapeOf_iff.mp hscrape
  cases hlast : lastBefore (isScrapeOf events url) time with
  | none =>
      rw [deltaAt_first hlast] at hdelta
      cases hdelta
  | some earlier =>
      obtain ⟨tokensBefore, hbefore⟩ := isScrapeOf_iff.mp (lastBefore_eq_some hlast).2
      obtain ⟨-, rfl⟩ := (deltaAt_eq_some_iff hexact hnow hbefore hlast series delta).mp hdelta
      rw [CountsEvents.grown, if_pos hscrape, hlast]
      exact ⟨rfl, (Nat.sub_le _ _).trans (hexact time hscrape series)⟩

theorem deltasCount : DeltasCount targets start events url where
  atMost time earlier hlast series delta hdelta := by
    refine ⟨_, ?_, (deltaAt_eq_grown hexact hdelta).1⟩
    have hle := (countsEvents targets start events url series).counter_le
      (lastBefore_eq_some hlast).1.le
    rw [CountsEvents.grown, hlast]
    split
    · exact hle
    · exact Nat.zero_le _
  exact time earlier withTokens hnow hlast hnever series htokens := by
    obtain ⟨hlt, hscrape⟩ := lastBefore_eq_some hlast
    obtain ⟨tokensBefore, hbefore⟩ := isScrapeOf_iff.mp hscrape
    have hgrown : ∀ series, _ := fun series =>
      (countsEvents targets start events url series).counter_eq hlt.le
        fun between hlow hhigh hrestart => by
          rcases Nat.lt_or_eq_of_le hlow with hlater | rfl
          · exact hnever between hlater hhigh hrestart
          · rw [hbefore] at hrestart
            cases hrestart
    refine (deltaAt_eq_some_iff hexact hnow hbefore hlast series _).mpr ⟨?_, ?_⟩
    · cases series with
      | tokens =>
          obtain ⟨htokensNow, htokensBefore⟩ := htokens rfl
          rw [hbefore] at htokensBefore
          cases htokensBefore
          exact ⟨rfl, htokensNow, (hgrown .tokens).1⟩
      | hits => exact ⟨(hgrown .hits).1, (hgrown .queries).1⟩
      | queries => exact ⟨(hgrown .hits).1, (hgrown .queries).1⟩
    · rw [eventsBetween, (hgrown series).2]
  total series horizon := by
    have hterm : ∀ time, ((deltaAt targets start events url series time).map F64.value).getD 0 ≤
        (CountsEvents.grown
          (fun time => (counterWorldAt targets start events time).counter url series)
          (isScrapeOf events url) time : ℚ) := by
      intro time
      cases hdelta : deltaAt targets start events url series time with
      | none => exact Nat.cast_nonneg _
      | some delta =>
          obtain ⟨hvalue, hle⟩ := deltaAt_eq_grown hexact hdelta
          rw [Option.map_some, Option.getD_some, hvalue, F64.value_ofNat hle]
    refine (Finset.sum_le_sum fun time _ => hterm time).trans ?_
    exact_mod_cast (countsEvents targets start events url series).sum_grown_le
      (isScrapeOf events url) horizon

end Exact

end History

/-- The first scrape of a target yields no delta, and the first after the tokens were
missing none of them; as long as its counters are read exactly, its deltas count its
events. -/
theorem deltas_count_events (targets : List String) (start : String → CounterSeries → Nat)
    (events : Nat → EngineEvent) (url : String) :
    (∀ time, lastBefore (isScrapeOf events url) time = none →
      ∀ series, deltaAt targets start events url series time = none) ∧
    (∀ time earlier, lastBefore (isScrapeOf events url) time = some earlier →
      events earlier = .scrape url false →
      deltaAt targets start events url .tokens time = none) ∧
    (ReadsExactly targets start events url → DeltasCount targets start events url) :=
  ⟨fun _ => deltaAt_first, fun _ _ => deltaAt_missing, deltasCount⟩

namespace Sample

/-- The engine restarts and counts past its old value before the next scrape. -/
def unnoticedRestart : Nat → EngineEvent
  | 0 => .count "u" .hits 1
  | 1 => .scrape "u" true
  | 2 => .restart "u"
  | 3 => .count "u" .hits 3
  | 4 => .scrape "u" false
  | _ => .failedScrape "u"

theorem deltas_count_events_sample :
    DeltasCount ["u"] (fun _ _ => 0) unnoticedRestart "u" := by
  refine (deltas_count_events ["u"] (fun _ _ => 0) unnoticedRestart "u").2.2 ?_
  intro time hscrape series
  rcases Nat.lt_or_ge time 5 with hlt | hge
  · have hall : ∀ time < 5, ∀ series, (counterWorldAt ["u"] (fun _ _ => 0) unnoticedRestart
        time).counter "u" series ≤ 2 ^ 53 := by
      intro time hlt series
      cases series <;> interval_cases time <;> decide
    exact hall time hlt series
  · obtain ⟨later, rfl⟩ := Nat.exists_eq_add_of_le' hge
    cases hscrape

/-- One hit above 2^53 + 2. -/
def beyondExact : Nat → EngineEvent
  | 0 => .count "u" .hits (2 ^ 53 + 2)
  | 1 => .scrape "u" true
  | 2 => .count "u" .hits 1
  | 3 => .scrape "u" true
  | _ => .failedScrape "u"

/-- The double of the second reading is one above it, and the delta is two. -/
theorem deltas_counterexample :
    deltaAt ["u"] (fun _ _ => 0) beyondExact "u" .hits 3 = some (Double.ofNat 2) ∧
      lastBefore (isScrapeOf beyondExact "u") 3 = some 1 ∧
      eventsBetween ["u"] (fun _ _ => 0) beyondExact "u" .hits 1 3 = 1 ∧
      ¬ DeltasCount ["u"] (fun _ _ => 0) beyondExact "u" := by
  have hdelta : deltaAt ["u"] (fun _ _ => 0) beyondExact "u" .hits 3 = some (Double.ofNat 2) := by
    decide +kernel
  refine ⟨hdelta, by decide, by decide +kernel, fun hcount => ?_⟩
  obtain ⟨counted, hle, hvalue⟩ := hcount.atMost 3 1 (by decide) .hits _ hdelta
  have hevents : eventsBetween ["u"] (fun _ _ => 0) beyondExact "u" .hits 1 3 = 1 := by
    decide +kernel
  rw [hevents] at hle
  have hne : ∀ counted ≤ 1, (Double.ofNat 2 : Float) ≠ Double.ofNat counted := by
    intro counted hle
    interval_cases counted <;> decide +kernel
  exact hne counted hle hvalue

end Sample

end VllmColdstartOperator
