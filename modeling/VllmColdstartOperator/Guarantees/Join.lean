import VllmColdstartOperator.Foundation.Runs
import VllmColdstartOperator.Reporter.Sources

/-!
# Tokens and energy over one interval

The energy baseline is that of the previous round, and lost with an incomplete
read; the token baseline of a target is that of the last round it answered in.
The two join over one interval when every target with a token baseline answered
in the previous round.
-/

namespace VllmColdstartOperator

open Foundation

variable {F : Type} [Double F]

/-- What the targets and the devices answer in one round. -/
structure SourceRound where
  bodies : Nat → Option String
  devices : List (Option Device)

def Real.round (round : SourceRound) (real : Real F) : Real F :=
  (real.sample round.bodies round.devices).1

def Real.fresh (targets : List String) : Real F := ⟨some (.new targets), some ⟨none⟩⟩

def publishedRatio (F : Type) [Double F] (targets : List String) (rounds : Nat → SourceRound)
    (time : Nat) : Option F32 :=
  ((run Real.round rounds (Real.fresh (F := F) targets) time).sample (rounds time).bodies
    (rounds time).devices).2.tokensPerJoule

/-! ## Readings of a round -/

section Readings

variable (rounds : Nat → SourceRound)

def tokensAt (F : Type) [Double F] (time position : Nat) : Option F := do
  let (_, _, g) ← counters (F := F) ((rounds time).bodies position)
  g

def energyAt (time : Nat) : Option UInt64 := completeEnergy (rounds time).devices

/-- The increase of a target's tokens between two rounds that both read them. -/
def tokensBetween (F : Type) [Double F] (base time position : Nat) : Option F := do
  let gc ← tokensAt rounds F time position
  let gp ← tokensAt rounds F base position
  increase gp gc

def joulesBetween (F : Type) [Double F] (base time : Nat) : Option F := do
  let now ← energyAt rounds time
  let before ← energyAt rounds base
  let delta ← checkedSub now before
  some (Double.div (Double.ofNat delta.toNat) (Double.ofNat 1000))

/-- A ratio of the targets' increases and the node's over one interval. -/
def JoinedOver (F : Type) [Double F] (targets : List String) (base time : Nat) (ratio : F32) :
    Prop :=
  ∃ t j : F,
    Double.total ((List.range targets.length).filterMap (tokensBetween rounds F base time)) =
      some t ∧
    joulesBetween rounds F base time = some j ∧ ratio = Double.toF32 (Double.div t j)

def lastCounters (F : Type) [Double F] (position : Nat) : Nat → Option (Counters F)
  | 0 => none
  | time + 1 => (counters ((rounds time).bodies position)).or (lastCounters F position time)

/-- When the node's energy did not go down since the round before: each target
whose tokens did not go down since it last answered, answered in the round before. -/
def BaselinesMeet (F : Type) [Double F] (targets : List String) (time : Nat) : Prop :=
  ∀ before, before + 1 = time → (joulesBetween rounds F before time).isSome = true →
    ∀ position < targets.length,
      (tokenDelta (lastCounters rounds F position time)
        (counters ((rounds time).bodies position))).isSome = true →
      (counters (F := F) ((rounds before).bodies position)).isSome = true

end Readings

/-! ## What the source keeps -/

section Run

variable {rounds : Nat → SourceRound} {targets : List String}

/-- The two baselines of a running source. -/
structure KeepsBaselines (rounds : Nat → SourceRound) (targets : List String) (time : Nat)
    (real : Real F) : Prop where
  scrape : ∃ scrape : VllmScrape F, real.scrape = some scrape ∧ scrape.targets = targets ∧
    ∀ position url, targets[position]? = some url →
      scrape.prev[url]? = lastCounters rounds F position time
  nvml : ∃ sampler, real.nvml = some sampler ∧
    sampler.prevEnergyMj = match time with
      | 0 => none
      | before + 1 => energyAt rounds before

theorem run_keepsBaselines (hnodup : targets.Nodup) (time : Nat) :
    KeepsBaselines rounds targets time
      (run Real.round rounds (Real.fresh (F := F) targets) time) := by
  induction time with
  | zero =>
      refine ⟨⟨.new targets, rfl, rfl, fun position url _ => ?_⟩, ⟨none⟩, rfl, rfl⟩
      exact Std.ExtTreeMap.getElem?_empty
  | succ time ih =>
      obtain ⟨⟨scrape, hscrape, htargets, hprev⟩, sampler, hnvml, -⟩ := ih
      refine ⟨⟨(scrape.sample (rounds time).bodies).1, ?_, ?_, fun position url hurl => ?_⟩,
        ⟨energyAt rounds time⟩, ?_, rfl⟩
      · rw [run_succ, Real.round, Real.sample, hscrape]
        rfl
      · rw [VllmScrape.sample_targets, htargets]
      · rw [scrape.sample_prev _ (htargets ▸ hnodup) (htargets ▸ hurl), hprev position url hurl]
        rfl
      · rw [run_succ, Real.round, Real.sample, hnvml]
        rfl

theorem tokenDelta_eq_tokensBetween {before position : Nat}
    (hmeet : BaselinesMeet rounds F targets (before + 1))
    (hjoules : (joulesBetween rounds F before (before + 1)).isSome = true)
    (hposition : position < targets.length) :
    tokenDelta (lastCounters rounds F position (before + 1))
        (counters ((rounds (before + 1)).bodies position)) =
      tokensBetween rounds F before (before + 1) position := by
  have hanswers := hmeet before rfl hjoules position hposition
  rw [tokensBetween, tokensAt, tokensAt]
  rw [lastCounters] at hanswers ⊢
  cases hbefore : counters (F := F) ((rounds before).bodies position) with
  | some last =>
      obtain ⟨h, q, g⟩ := last
      cases counters (F := F) ((rounds (before + 1)).bodies position) <;> rfl
  | none =>
      rw [hbefore] at hanswers
      have hnone := Option.not_isSome_iff_eq_none.mp fun hsome =>
        Bool.false_ne_true (hanswers hsome)
      rw [hnone]
      exact (Option.bind_fun_none _).symm

theorem sum_tokensBetween (before : Nat) (hmeet : BaselinesMeet rounds F targets (before + 1))
    (hjoules : (joulesBetween rounds F before (before + 1)).isSome = true)
    {scrape : VllmScrape F} (htargets : scrape.targets = targets) (hnodup : targets.Nodup)
    (hprev : ∀ position url, targets[position]? = some url →
      scrape.prev[url]? = lastCounters rounds F position (before + 1)) :
    (scrape.sample (rounds (before + 1)).bodies).2.generationTokensDelta =
      Double.total ((List.range targets.length).filterMap
        (tokensBetween rounds F before (before + 1))) := by
  have hvisit : ∀ visit ∈ targets.zipIdx,
      tokenDelta scrape.prev[visit.1]? (counters ((rounds (before + 1)).bodies visit.2)) =
        tokensBetween rounds F before (before + 1) visit.2 := by
    intro visit hmem
    have hurl := List.mem_zipIdx_iff_getElem?.mp hmem
    rw [hprev _ _ hurl]
    exact tokenDelta_eq_tokensBetween hmeet hjoules (List.getElem?_eq_some_iff.mp hurl).1
  have hpositions : targets.zipIdx.map Prod.snd = List.range targets.length := by
    rw [List.zipIdx_map_snd, List.range_eq_range']
  rw [scrape.sample_tokens _ (htargets ▸ hnodup), htargets, List.map_congr_left hvisit,
    ← hpositions, List.filterMap_map, List.filterMap_map]
  rfl

end Run

/-- The ratios a source publishes are of one interval, as long as the baselines meet. -/
theorem ratio_joins_one_interval (targets : List String) (hnodup : targets.Nodup)
    (rounds : Nat → SourceRound) (hmeet : ∀ time, BaselinesMeet rounds F targets time)
    (time : Nat) (ratio : F32) (hratio : publishedRatio F targets rounds time = some ratio) :
    ∃ base < time, JoinedOver rounds F targets base time ratio := by
  obtain ⟨⟨scrape, hscrape, htargets, hprev⟩, sampler, hnvml, henergy⟩ :=
    @run_keepsBaselines F _ rounds _ hnodup time
  rw [publishedRatio, Real.sample, hscrape, hnvml] at hratio
  change tokensPerJoule (scrape.sample (rounds time).bodies).2.generationTokensDelta
    (sampler.sample (rounds time).devices).2.energyDeltaJoules = some ratio at hratio
  obtain ⟨t, htokens, hjoined⟩ := Option.bind_eq_some_iff.mp hratio
  obtain ⟨j, hjoules, hpublished⟩ := Option.bind_eq_some_iff.mp hjoined
  rw [NvmlSampler.sample, henergy] at hjoules
  cases time with
  | zero =>
      obtain ⟨now, -, hbefore⟩ := Option.bind_eq_some_iff.mp hjoules
      cases hbefore
  | succ before =>
      have hbetween : joulesBetween rounds F before (before + 1) = some j := hjoules
      have htotal := sum_tokensBetween before (hmeet (before + 1))
        (Option.isSome_iff_exists.mpr ⟨j, hbetween⟩) htargets hnodup hprev
      refine ⟨before, Nat.lt_succ_self before, t, j, ?_, hbetween, ?_⟩
      · rw [← htotal]
        exact htokens
      · split at hpublished
        · exact (Option.some.inj hpublished).symm
        · cases hpublished

namespace Sample

def engineRound (tokens : Option String) (millijoules : UInt64) : SourceRound where
  bodies _ := tokens.map fun tokens =>
    "vllm:prefix_cache_hits 1\nvllm:prefix_cache_queries 2\nvllm:generation_tokens_total " ++ tokens
  devices := [some ⟨none, none, some millijoules⟩]

def steadyRounds : Nat → SourceRound
  | 0 => engineRound (some "10") 5000
  | _ => engineRound (some "14") 6000

theorem ratio_joins_one_interval_sample :
    publishedRatio Whole ["u"] steadyRounds 1 = some (wholeF32 4) ∧
      ∃ base < 1, JoinedOver steadyRounds Whole ["u"] base 1 (wholeF32 4) := by
  have hratio : publishedRatio Whole ["u"] steadyRounds 1 = some (wholeF32 4) := by
    decide +kernel
  refine ⟨hratio, ratio_joins_one_interval ["u"] (by decide) steadyRounds ?_ 1 _ hratio⟩
  intro time before _ _ position _ _
  cases before with
  | zero =>
      change (counters (F := Whole) ((engineRound (some "10") 5000).bodies 0)).isSome = true
      decide +kernel
  | succ before =>
      change (counters (F := Whole) ((engineRound (some "14") 6000).bodies 0)).isSome = true
      decide +kernel

/-- The engine does not answer in the round between. -/
def gappedRounds : Nat → SourceRound
  | 0 => engineRound (some "10") 5000
  | 1 => engineRound none 6000
  | _ => engineRound (some "14") 7000

/-- Four tokens in two joules are published as four tokens in one. -/
theorem ratio_counterexample :
    ¬ ∀ (targets : List String), targets.Nodup → ∀ (rounds : Nat → SourceRound) (time : Nat)
      (ratio : F32), publishedRatio Whole targets rounds time = some ratio →
        ∃ base < time, JoinedOver rounds Whole targets base time ratio := by
  intro hall
  obtain ⟨base, hbase, t, j, htokens, hjoules, hratio⟩ :=
    hall ["u"] (by decide) gappedRounds 2 (wholeF32 4) (by decide +kernel)
  have hcases : base = 0 ∨ base = 1 := by omega
  rcases hcases with rfl | rfl
  · have ht : Double.total ((List.range 1).filterMap (tokensBetween gappedRounds Whole 0 2)) =
        some ⟨4⟩ := by decide +kernel
    have hj : joulesBetween gappedRounds Whole 0 2 = some ⟨2⟩ := by decide +kernel
    cases Option.some.inj (htokens.symm.trans ht)
    cases Option.some.inj (hjoules.symm.trans hj)
    revert hratio
    decide +kernel
  · have ht : Double.total ((List.range 1).filterMap (tokensBetween gappedRounds Whole 1 2)) =
        none := by decide +kernel
    cases htokens.symm.trans ht

end Sample

end VllmColdstartOperator
