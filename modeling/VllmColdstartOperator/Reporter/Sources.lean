import VllmColdstartOperator.FleetTypes

/-!
# The signal sources of the reporter

The real source of one node: the scrape of its engines' metrics endpoints and
the energy sampler of its GPUs.  Each keeps a counter baseline of its own; one
round of both makes one `Signals`.
-/

namespace VllmColdstartOperator

open Foundation

variable {F : Type} [Double F]

/-- One sample of everything the reporter owns on a node state. -/
structure Signals where
  gpuUtilization : Option F32
  gpuMemoryUsedBytes : Option Int
  activeServiceCount : Option Int32
  kvCacheHitRate : Option F32
  tokensPerJoule : Option F32
  requestsWaiting : Option F32
  requestsRunning : Option F32
  deriving DecidableEq, Repr

/-! ## Metrics text -/

/-- The value of a line of the family, whatever its labels. -/
def lineValue (family raw : List Char) : Option F :=
  let line := trim raw
  if line = [] ∨ line.head? = some '#' then none
  else do
    let rest ← stripPrefix family line
    let rest ← match rest with
      | [] => none
      | first :: after =>
          if first = '{' then
            match (first :: after).dropWhile (fun char => char ≠ '}') with
            | [] => none
            | _ :: value => some value
          else if isWhitespace first then some rest
          else none
    let word ← firstWord rest
    Double.parse (String.ofList word)

def sumFamily (body family : String) : Option F :=
  ((lines body.toList).filterMap (lineValue family.toList)).foldl Double.addInto none

def sumFamilyTotaled (body family : String) : Option F :=
  (sumFamily body (family ++ "_total")).or (sumFamily body family)

/-! ## Scraping the engines -/

abbrev Counters (F : Type) := F × F × Option F

structure VllmScrape (F : Type) where
  targets : List String
  prev : BTreeMap String (Counters F)

structure ScrapeRound (F : Type) where
  kvCacheHitRate : Option F32
  requestsWaiting : Option F32
  requestsRunning : Option F32
  respondingTargets : Int32
  generationTokensDelta : Option F

def VllmScrape.new (targets : List String) : VllmScrape F := ⟨targets, ∅⟩

/-- A counter that went down was reset, and has no increase. -/
def increase (before now : F) : Option F :=
  let delta := Double.sub now before
  if Double.le (Double.ofNat 0) delta then some delta else none

/-- The increases of hits and queries, and of generation tokens, since the
baseline of the target. -/
def VllmScrape.advance (scrape : VllmScrape F) (url : String) (h q : F) (g : Option F) :
    VllmScrape F × Option (F × F) × Option F :=
  let deltas : Option (F × F) × Option F :=
    match scrape.prev[url]? with
    | none => (none, none)
    | some (ph, pq, pg) =>
        (do
          let dh ← increase ph h
          let dq ← increase pq q
          some (dh, dq),
        do
          let gc ← g
          let gp ← pg
          increase gp gc)
  ({ scrape with prev := scrape.prev.insert url (h, q, g) }, deltas)

structure ScrapeSums (F : Type) where
  scrape : VllmScrape F
  responding : Int32
  hitsDelta : F
  queriesDelta : F
  haveDelta : Bool
  tokensDelta : Option F
  waiting : Option F
  running : Option F

def addFamily (total value : Option F) : Option F :=
  match value with
  | some value => Double.addInto total value
  | none => total

/-- One target; `none` is a failed request or an unreadable body. -/
def ScrapeSums.visit (sums : ScrapeSums F) (url : String) (body : Option String) :
    ScrapeSums F :=
  match body with
  | none => sums
  | some body =>
      let sums := { sums with
        waiting := addFamily sums.waiting (sumFamily body "vllm:num_requests_waiting")
        running := addFamily sums.running (sumFamily body "vllm:num_requests_running") }
      match sumFamilyTotaled body "vllm:prefix_cache_hits",
          sumFamilyTotaled body "vllm:prefix_cache_queries" with
      | some h, some q =>
          let g := sumFamily body "vllm:generation_tokens_total"
          let (scrape, hq, dg) := sums.scrape.advance url h q g
          let sums := { sums with
            scrape := scrape
            responding := sums.responding + 1
            tokensDelta := addFamily sums.tokensDelta dg }
          match hq with
          | some (dh, dq) =>
              { sums with
                hitsDelta := Double.add sums.hitsDelta dh
                queriesDelta := Double.add sums.queriesDelta dq
                haveDelta := true }
          | none => sums
      | _, _ => sums

def VllmScrape.sums (scrape : VllmScrape F) (bodies : Nat → Option String) : ScrapeSums F :=
  scrape.targets.zipIdx.foldl (fun sums (url, position) => sums.visit url (bodies position))
    { scrape := scrape
      responding := 0
      hitsDelta := Double.ofNat 0
      queriesDelta := Double.ofNat 0
      haveDelta := false
      tokensDelta := none
      waiting := none
      running := none }

/-- One round over the targets, whose bodies come by position. -/
def VllmScrape.sample (scrape : VllmScrape F) (bodies : Nat → Option String) :
    VllmScrape F × ScrapeRound F :=
  let sums := scrape.sums bodies
  (sums.scrape,
    { kvCacheHitRate :=
        if sums.haveDelta && Double.lt (Double.ofNat 0) sums.queriesDelta then
          some (Double.toF32 (Double.div sums.hitsDelta sums.queriesDelta))
        else none
      requestsWaiting := sums.waiting.map Double.toF32
      requestsRunning := sums.running.map Double.toF32
      respondingTargets := sums.responding
      generationTokensDelta := sums.tokensDelta })

/-! ## What one visit reads -/

def counters (body : Option String) : Option (Counters F) := do
  let body ← body
  let h ← sumFamilyTotaled body "vllm:prefix_cache_hits"
  let q ← sumFamilyTotaled body "vllm:prefix_cache_queries"
  some (h, q, sumFamily body "vllm:generation_tokens_total")

theorem visit_counters (sums : ScrapeSums F) (url : String) (body : Option String) :
    ((sums.visit url body).scrape, (sums.visit url body).responding,
        (sums.visit url body).tokensDelta) =
      match counters body with
      | none => (sums.scrape, sums.responding, sums.tokensDelta)
      | some (h, q, g) => ((sums.scrape.advance url h q g).1, sums.responding + 1,
          addFamily sums.tokensDelta (sums.scrape.advance url h q g).2.2) := by
  cases body with
  | none => rfl
  | some body =>
      rw [counters, ScrapeSums.visit]
      dsimp only [Option.bind_eq_bind, Option.bind_some]
      cases sumFamilyTotaled (F := F) body "vllm:prefix_cache_hits" with
      | none => rfl
      | some h =>
          cases sumFamilyTotaled (F := F) body "vllm:prefix_cache_queries" with
          | none => rfl
          | some q =>
              dsimp only [Option.bind_some]
              cases (sums.scrape.advance url h q
                (sumFamily body "vllm:generation_tokens_total")).2.1 <;> rfl

/-- The increase of generation tokens between two answers of a target. -/
def tokenDelta (before now : Option (Counters F)) : Option F := do
  let (_, _, g) ← now
  let (_, _, pg) ← before
  let gc ← g
  let gp ← pg
  increase gp gc

theorem visit_tokens (sums : ScrapeSums F) (url : String) (body : Option String) :
    (sums.visit url body).tokensDelta =
      addFamily sums.tokensDelta (tokenDelta sums.scrape.prev[url]? (counters body)) := by
  have hvisit := congrArg (fun sums => sums.2.2) (visit_counters sums url body)
  dsimp only at hvisit
  rw [hvisit]
  cases counters (F := F) body with
  | none => rfl
  | some now =>
      obtain ⟨h, q, g⟩ := now
      dsimp only
      congr 1
      rw [VllmScrape.advance]
      dsimp only
      cases sums.scrape.prev[url]? with
      | none => rfl
      | some before => rfl

/-- The increases of hits and queries between two answers of a target. -/
def cacheDelta (before now : Option (Counters F)) : Option (F × F) := do
  let (h, q, _) ← now
  let (ph, pq, _) ← before
  let dh ← increase ph h
  let dq ← increase pq q
  some (dh, dq)

theorem visit_cache (sums : ScrapeSums F) (url : String) (body : Option String) :
    ((sums.visit url body).hitsDelta, (sums.visit url body).queriesDelta,
        (sums.visit url body).haveDelta) =
      match cacheDelta sums.scrape.prev[url]? (counters body) with
      | none => (sums.hitsDelta, sums.queriesDelta, sums.haveDelta)
      | some (dh, dq) =>
          (Double.add sums.hitsDelta dh, Double.add sums.queriesDelta dq, true) := by
  cases body with
  | none => rfl
  | some body =>
      rw [counters, ScrapeSums.visit]
      dsimp only [Option.bind_eq_bind, Option.bind_some]
      cases sumFamilyTotaled (F := F) body "vllm:prefix_cache_hits" with
      | none => rfl
      | some h =>
          cases sumFamilyTotaled (F := F) body "vllm:prefix_cache_queries" with
          | none => rfl
          | some q =>
              dsimp only [Option.bind_some, cacheDelta, VllmScrape.advance]
              cases sums.scrape.prev[url]? with
              | none => rfl
              | some before =>
                  obtain ⟨ph, pq, pg⟩ := before
                  dsimp only [Option.bind_eq_bind, Option.bind_some]
                  cases (increase ph h).bind fun dh =>
                    (increase pq q).bind fun dq => some (dh, dq) <;> rfl

theorem visit_prev (sums : ScrapeSums F) (url : String) (body : Option String) (other : String) :
    (sums.visit url body).scrape.prev[other]? =
      if url = other then (counters body).or sums.scrape.prev[other]?
      else sums.scrape.prev[other]? := by
  have hvisit := congrArg (fun sums => sums.1) (visit_counters sums url body)
  dsimp only at hvisit
  rw [hvisit]
  cases counters (F := F) body with
  | none => simp
  | some now =>
      obtain ⟨h, q, g⟩ := now
      dsimp only [VllmScrape.advance]
      rw [BTreeMap.lookup_insert, Option.some_or]

section Visits

variable (bodies : Nat → Option String)

theorem visits_prev_of_absent (visited : List (String × Nat)) (sums : ScrapeSums F)
    {other : String} (habsent : other ∉ visited.map Prod.fst) :
    (visited.foldl (fun sums (url, position) => sums.visit url (bodies position))
      sums).scrape.prev[other]? = sums.scrape.prev[other]? := by
  induction visited generalizing sums with
  | nil => rfl
  | cons visit visited ih =>
      rw [List.map_cons, List.mem_cons, not_or] at habsent
      rw [List.foldl_cons, ih _ habsent.2, visit_prev, if_neg (Ne.symm habsent.1)]

theorem visits_prev {visited : List (String × Nat)} (hnodup : (visited.map Prod.fst).Nodup)
    (sums : ScrapeSums F) {url : String} {position : Nat} (hmem : (url, position) ∈ visited) :
    (visited.foldl (fun sums (url, position) => sums.visit url (bodies position))
      sums).scrape.prev[url]? = (counters (bodies position)).or sums.scrape.prev[url]? := by
  induction visited generalizing sums with
  | nil => cases hmem
  | cons visit visited ih =>
      obtain ⟨hhead, htail⟩ := List.nodup_cons.mp hnodup
      rw [List.foldl_cons]
      rcases List.mem_cons.mp hmem with rfl | hlater
      · rw [visits_prev_of_absent bodies visited _ hhead, visit_prev, if_pos rfl]
      · have hne : visit.1 ≠ url := by
          rintro rfl
          exact hhead (List.mem_map.mpr ⟨_, hlater, rfl⟩)
        rw [ih htail _ hlater, visit_prev, if_neg hne]

theorem visits_tokens {visited : List (String × Nat)} (hnodup : (visited.map Prod.fst).Nodup)
    (sums : ScrapeSums F) :
    (visited.foldl (fun sums (url, position) => sums.visit url (bodies position))
      sums).tokensDelta =
      (visited.map fun visit =>
        tokenDelta sums.scrape.prev[visit.1]? (counters (bodies visit.2))).foldl addFamily
          sums.tokensDelta := by
  induction visited generalizing sums with
  | nil => rfl
  | cons visit visited ih =>
      obtain ⟨hhead, htail⟩ := List.nodup_cons.mp hnodup
      have hlater : ∀ later ∈ visited,
          tokenDelta (sums.visit visit.1 (bodies visit.2)).scrape.prev[later.1]?
              (counters (bodies later.2)) =
            tokenDelta sums.scrape.prev[later.1]? (counters (bodies later.2)) := by
        intro later hmem
        have hne : visit.1 ≠ later.1 := fun heq => hhead (heq ▸ List.mem_map_of_mem hmem)
        rw [visit_prev, if_neg hne]
      rw [List.foldl_cons, ih htail, visit_tokens, List.map_congr_left hlater, List.map_cons,
        List.foldl_cons]

end Visits

/-! ## What one round reads -/

namespace VllmScrape

variable (scrape : VllmScrape F) (bodies : Nat → Option String)

omit [Double F] in
theorem zipIdx_urls : scrape.targets.zipIdx.map Prod.fst = scrape.targets :=
  List.zipIdx_map_fst 0 scrape.targets

theorem sample_prev (hnodup : scrape.targets.Nodup) {position : Nat} {url : String}
    (hurl : scrape.targets[position]? = some url) :
    (scrape.sample bodies).1.prev[url]? = (counters (bodies position)).or scrape.prev[url]? :=
  visits_prev bodies (by rwa [zipIdx_urls]) _ (List.mem_zipIdx_iff_getElem?.mpr hurl)

theorem sample_targets : (scrape.sample bodies).1.targets = scrape.targets := by
  have hvisit : ∀ (sums : ScrapeSums F) (url : String) (body : Option String),
      (sums.visit url body).scrape.targets = sums.scrape.targets := by
    intro sums url body
    have hscrape := congrArg (fun sums => sums.1.targets) (visit_counters sums url body)
    dsimp only at hscrape
    rw [hscrape]
    cases counters (F := F) body <;> rfl
  have hfold : ∀ (visited : List (String × Nat)) (sums : ScrapeSums F),
      (visited.foldl (fun sums (url, position) => sums.visit url (bodies position))
        sums).scrape.targets = sums.scrape.targets := by
    intro visited
    induction visited with
    | nil => exact fun _ => rfl
    | cons visit visited ih =>
        intro sums
        rw [List.foldl_cons, ih, hvisit]
  exact hfold _ _

end VllmScrape

theorem foldl_addFamily (values : List (Option F)) :
    values.foldl addFamily none = Double.total (values.filterMap id) := by
  have hfold : ∀ (values : List (Option F)) (start : Option F),
      values.foldl addFamily start = (values.filterMap id).foldl Double.addInto start := by
    intro values
    induction values with
    | nil => exact fun _ => rfl
    | cons value values ih =>
        intro start
        rw [List.foldl_cons, ih]
        cases value <;> rfl
  rw [hfold, Double.foldl_addInto]

theorem VllmScrape.sample_tokens (scrape : VllmScrape F) (bodies : Nat → Option String)
    (hnodup : scrape.targets.Nodup) :
    (scrape.sample bodies).2.generationTokensDelta =
      Double.total ((scrape.targets.zipIdx.map fun visit =>
        tokenDelta scrape.prev[visit.1]? (counters (bodies visit.2))).filterMap id) := by
  rw [← foldl_addFamily]
  exact visits_tokens bodies (by rwa [zipIdx_urls]) _

/-! ## Reading the GPUs -/

/-- What one device answers in a round; `none` is a failed read. -/
structure Device where
  utilization : Option UInt32
  memoryUsed : Option UInt64
  totalEnergyConsumption : Option UInt64
  deriving DecidableEq, Repr

/-- The summed energy counter of the previous complete round. -/
structure NvmlSampler where
  prevEnergyMj : Option UInt64
  deriving DecidableEq, Repr

structure NvmlRound (F : Type) where
  gpuUtilization : Option F32
  gpuMemoryUsedBytes : Option Int
  energyDeltaJoules : Option F

def utilizations (devices : List (Option Device)) : List UInt32 :=
  devices.filterMap fun device => device.bind Device.utilization

def memories (devices : List (Option Device)) : List UInt64 :=
  devices.filterMap fun device => device.bind Device.memoryUsed

/-- The summed counter of a round in which every device was read. -/
def completeEnergy (devices : List (Option Device)) : Option UInt64 :=
  if devices = [] then none
  else (devices.mapM fun device : Option Device =>
    device.bind Device.totalEnergyConsumption).map List.sum

def checkedSub (now before : UInt64) : Option UInt64 :=
  if before ≤ now then some (now - before) else none

/-- The devices of a round; a device that cannot be opened is `none`. -/
def NvmlSampler.sample (sampler : NvmlSampler) (devices : List (Option Device)) :
    NvmlSampler × NvmlRound F :=
  let energy := completeEnergy devices
  let busy := utilizations devices
  let used := memories devices
  (⟨energy⟩,
    { gpuUtilization :=
        if busy = [] then none
        else
          let sum : F := busy.foldl
            (fun sum percent => Double.add sum (Double.ofNat percent.toNat)) (Double.ofNat 0)
          some (Double.toF32 (Double.div sum (Double.ofNat busy.length)))
      gpuMemoryUsedBytes :=
        if used = [] then none
        else some (used.foldl (fun sum bytes => sum + bytes.toInt64) (0 : Int64)).toInt
      energyDeltaJoules := do
        let now ← energy
        let before ← sampler.prevEnergyMj
        let delta ← checkedSub now before
        some (Double.div (Double.ofNat delta.toNat) (Double.ofNat 1000)) })

/-! ## The real source -/

structure Real (F : Type) where
  scrape : Option (VllmScrape F)
  nvml : Option NvmlSampler

def tokensPerJoule (tokens joules : Option F) : Option F32 := do
  let t ← tokens
  let j ← joules
  if Double.lt (Double.ofNat 0) j && Double.lt (Double.ofNat 0) t then
    some (Double.toF32 (Double.div t j))
  else none

def Real.sample (real : Real F) (bodies : Nat → Option String)
    (devices : List (Option Device)) : Real F × Signals :=
  let scraped := real.scrape.map fun scrape => scrape.sample bodies
  let read : Option (NvmlSampler × NvmlRound F) :=
    real.nvml.map fun nvml => nvml.sample devices
  (⟨scraped.map Prod.fst, read.map Prod.fst⟩,
    { gpuUtilization := read.bind fun read => read.2.gpuUtilization
      gpuMemoryUsedBytes := read.bind fun read => read.2.gpuMemoryUsedBytes
      activeServiceCount := scraped.map fun scraped => scraped.2.respondingTargets
      kvCacheHitRate := scraped.bind fun scraped => scraped.2.kvCacheHitRate
      tokensPerJoule := tokensPerJoule
        (scraped.bind fun scraped => scraped.2.generationTokensDelta)
        (read.bind fun read => read.2.energyDeltaJoules)
      requestsWaiting := scraped.bind fun scraped => scraped.2.requestsWaiting
      requestsRunning := scraped.bind fun scraped => scraped.2.requestsRunning })

/-! ## Doubles that are whole numbers -/

namespace Sample

/-- Sums, differences and exact quotients of whole numbers below 2^24, as the
float formats compute them. -/
structure Whole where
  value : Int
  deriving DecidableEq, Repr

def wholeF32 (value : Nat) : F32 :=
  if value = 0 then ⟨0⟩
  else ⟨BitVec.ofNat 32
    ((value.log2 + 127) * 2 ^ 23 + (value * 2 ^ (23 - value.log2) - 2 ^ 23))⟩

instance : Double Whole where
  ofNat value := ⟨value⟩
  add left right := ⟨left.value + right.value⟩
  sub left right := ⟨left.value - right.value⟩
  div left right := ⟨left.value / right.value⟩
  le left right := left.value ≤ right.value
  lt left right := left.value < right.value
  toF32 value := wholeF32 value.value.toNat
  parse text := (decimalDigits text.toList).map fun value => ⟨value⟩

-- 1.0, 3.0 and a line of metrics text
example : wholeF32 1 = ⟨0x3f800000#32⟩ ∧ wholeF32 3 = ⟨0x40400000#32⟩ ∧
    sumFamily (F := Whole) "# HELP a\na\x7bb=\"1\"\x7d 2\nab 9\na 3 17\n" "a" = some ⟨5⟩ := by
  decide +kernel

end Sample

end VllmColdstartOperator
