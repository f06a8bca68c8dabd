import VllmColdstartOperator.Foundation.Runs
import VllmColdstartOperator.Reporter.Sources

/-!
# What an energy delta measures

The sampler keeps the sum of the devices' energy counters, not the counters.  A
delta is the energy the devices used when the round before read the same ones and
none was reset; a reset, or a change of the devices, that the sum does not show
passes for energy.
-/

namespace VllmColdstartOperator

open Foundation

/-! ## Rounds over identified devices -/

def energyReading (device : Option Device) : Option UInt64 :=
  device.bind Device.totalEnergyConsumption

/-- A failed read adds nothing. -/
def energyAdded (device : Option Device) : Nat :=
  ((energyReading device).map UInt64.toNat).getD 0

/-- The devices of one round, each under its identity, which the sampler does not
read.  What they add up to fits 64 bits. -/
structure GpuRound (δ : Type) where
  devices : List (δ × Option Device)
  distinct : (devices.map Prod.fst).Nodup
  fits : (devices.map fun device => energyAdded device.2).sum < 2 ^ 64

namespace GpuRound

variable {δ : Type}

def ids (round : GpuRound δ) : List δ := round.devices.map Prod.fst

def answers (round : GpuRound δ) : List (Option Device) := round.devices.map Prod.snd

def total (round : GpuRound δ) : Nat :=
  (round.devices.map fun device => energyAdded device.2).sum

def Complete (round : GpuRound δ) : Prop :=
  round.devices ≠ [] ∧ ∀ device ∈ round.devices, (energyReading device.2).isSome = true

def energyAt [DecidableEq δ] (round : GpuRound δ) (id : δ) : Nat :=
  energyAdded (round.devices.lookup id).join

/-! ## The sum of a round -/

theorem lookup_of_mem {α : Type} [DecidableEq δ] {pairs : List (δ × α)}
    (hdistinct : (pairs.map Prod.fst).Nodup) {pair : δ × α} (hmem : pair ∈ pairs) :
    pairs.lookup pair.1 = some pair.2 := by
  induction pairs with
  | nil => cases hmem
  | cons first pairs ih =>
      obtain ⟨habsent, hrest⟩ := List.nodup_cons.mp hdistinct
      rw [List.lookup_cons]
      rcases List.mem_cons.mp hmem with rfl | hlater
      · simp
      · have hne : (pair.1 == first.1) = false := by
          rw [beq_eq_false_iff_ne]
          intro heq
          exact habsent (heq ▸ List.mem_map_of_mem hlater)
        rw [hne]
        exact ih hrest hlater

theorem mapM_energy_iff (devices : List (Option Device))
    (hfits : (devices.map energyAdded).sum < 2 ^ 64) (energy : UInt64) :
    (devices.mapM energyReading).map List.sum = some energy ↔
      (∀ device ∈ devices, (energyReading device).isSome = true) ∧
        energy.toNat = (devices.map energyAdded).sum := by
  induction devices generalizing energy with
  | nil =>
      simp only [List.mapM_nil, Option.pure_def, Option.map_some, List.sum_nil, Option.some.injEq,
        List.not_mem_nil, false_implies, implies_true, true_and, List.map_nil]
      exact ⟨fun heq => heq ▸ rfl, fun heq => (UInt64.toNat_inj.mp heq).symm⟩
  | cons device devices ih =>
      rw [List.map_cons, List.sum_cons] at hfits
      have hrest := ih (by omega)
      rw [List.mapM_cons, List.map_cons, List.sum_cons]
      cases hread : energyReading device with
      | none => simp [hread]
      | some first =>
          have hadded : energyAdded device = first.toNat := by rw [energyAdded, hread]; rfl
          rw [hadded] at hfits ⊢
          simp only [List.mem_cons, forall_eq_or_imp, hread, Option.isSome_some, true_and,
            Option.bind_eq_bind, Option.bind_some]
          cases hmapped : devices.mapM energyReading with
          | none =>
              rw [hmapped] at hrest
              have hfailed : ¬ ∀ device ∈ devices, (energyReading device).isSome = true := by
                intro hall
                have hnone := (hrest (UInt64.ofNat (devices.map energyAdded).sum)).mpr
                  ⟨hall, UInt64.toNat_ofNat_of_lt' (by unfold UInt64.size; omega)⟩
                cases hnone
              simp [hfailed]
          | some values =>
              obtain ⟨hall, hsum⟩ := (hrest values.sum).mp (by rw [hmapped]; rfl)
              simp only [Option.bind_some, Option.pure_def, Option.map_some, List.sum_cons,
                Option.some.injEq]
              have hvalue : (first + values.sum).toNat =
                  first.toNat + (devices.map energyAdded).sum := by
                rw [UInt64.toNat_add, hsum, Nat.mod_eq_of_lt (by omega)]
              rw [← UInt64.toNat_inj, hvalue]
              exact ⟨fun heq => ⟨hall, heq.symm⟩, fun h => h.2.symm⟩

theorem completeEnergy_eq_some_iff (round : GpuRound δ) (energy : UInt64) :
    completeEnergy round.answers = some energy ↔
      round.Complete ∧ energy.toNat = round.total := by
  have hadded : round.answers.map energyAdded =
      round.devices.map fun device => energyAdded device.2 := by
    rw [answers, List.map_map]
    rfl
  have hmapped := mapM_energy_iff round.answers (by rw [hadded]; exact round.fits) energy
  rw [hadded] at hmapped
  rw [completeEnergy, answers]
  split
  next hempty =>
    rw [List.map_eq_nil_iff] at hempty
    simp [Complete, hempty]
  next hne =>
    rw [List.map_eq_nil_iff] at hne
    refine hmapped.trans (and_congr_left fun _ => ?_)
    rw [Complete, and_iff_right hne, answers, List.forall_mem_map]

theorem total_eq_sum_ids [DecidableEq δ] (round : GpuRound δ) :
    round.total = (round.ids.map round.energyAt).sum := by
  rw [total, ids, List.map_map]
  congr 1
  refine List.map_congr_left fun device hdevice => ?_
  have hlookup : round.devices.lookup device.1 = some device.2 :=
    lookup_of_mem round.distinct hdevice
  rw [Function.comp_apply, energyAt, hlookup, Option.join_some]

end GpuRound

/-! ## Consecutive rounds -/

def samplerAt (F : Type) [Double F] {δ : Type} (rounds : Nat → GpuRound δ) :
    Nat → NvmlSampler :=
  run (fun round sampler => (NvmlSampler.sample (F := F) sampler round.answers).1) rounds ⟨none⟩

def energyDelta (F : Type) [Double F] {δ : Type} (rounds : Nat → GpuRound δ) (time : Nat) :
    Option F :=
  ((samplerAt F rounds time).sample (rounds time).answers).2.energyDeltaJoules

/-- The delta of two rounds that read the same devices, none of them lower. -/
structure MeasuresEnergy {F δ : Type} [Double F] [DecidableEq δ] (before now : GpuRound δ)
    (joules : F) : Prop where
  beforeRead : before.Complete
  nowRead : now.Complete
  sameDevices : ∀ id, id ∈ before.ids ↔ id ∈ now.ids
  notLower : ∀ id ∈ now.ids, before.energyAt id ≤ now.energyAt id
  joules : joules = Double.div (Double.ofNat
    (now.ids.map fun id => now.energyAt id - before.energyAt id).sum) (Double.ofNat 1000)

section Rounds

variable {F δ : Type} [Double F]

theorem samplerAt_succ (rounds : Nat → GpuRound δ) (time : Nat) :
    samplerAt F rounds (time + 1) = ⟨completeEnergy (rounds time).answers⟩ := rfl

theorem energyDelta_zero (rounds : Nat → GpuRound δ) : energyDelta F rounds 0 = none := by
  change (do
    let _ ← completeEnergy (rounds 0).answers
    none) = (none : Option F)
  cases completeEnergy (rounds 0).answers <;> rfl

theorem energyDelta_eq_some_iff (rounds : Nat → GpuRound δ) (time : Nat) (joules : F) :
    energyDelta F rounds (time + 1) = some joules ↔
      (rounds time).Complete ∧ (rounds (time + 1)).Complete ∧
        (rounds time).total ≤ (rounds (time + 1)).total ∧
        joules = Double.div (Double.ofNat ((rounds (time + 1)).total - (rounds time).total))
          (Double.ofNat 1000) := by
  have hbefore := (rounds time).completeEnergy_eq_some_iff
  have hnow := (rounds (time + 1)).completeEnergy_eq_some_iff
  rw [energyDelta, samplerAt_succ, NvmlSampler.sample]
  dsimp only
  cases hsumBefore : completeEnergy (rounds time).answers with
  | none =>
      have hincomplete : ¬ (rounds time).Complete := by
        intro hcomplete
        have hread := (hbefore (UInt64.ofNat (rounds time).total)).mpr
          ⟨hcomplete, UInt64.toNat_ofNat_of_lt' (rounds time).fits⟩
        rw [hsumBefore] at hread
        cases hread
      cases completeEnergy (rounds (time + 1)).answers <;> simp [hincomplete]
  | some before =>
      obtain ⟨hcomplete, hbeforeNat⟩ := (hbefore before).mp hsumBefore
      cases hsumNow : completeEnergy (rounds (time + 1)).answers with
      | none =>
          have hincomplete : ¬ (rounds (time + 1)).Complete := by
            intro hcompleteNow
            have hread := (hnow (UInt64.ofNat (rounds (time + 1)).total)).mpr
              ⟨hcompleteNow, UInt64.toNat_ofNat_of_lt' (rounds (time + 1)).fits⟩
            rw [hsumNow] at hread
            cases hread
          simp [hincomplete]
      | some now =>
          obtain ⟨hcompleteNow, hnowNat⟩ := (hnow now).mp hsumNow
          simp only [Option.bind_eq_bind, Option.bind_some, checkedSub, hcomplete, hcompleteNow,
            true_and, UInt64.le_iff_toNat_le, hbeforeNat, hnowNat]
          by_cases hle : (rounds time).total ≤ (rounds (time + 1)).total
          · have hsub : (now - before).toNat =
                (rounds (time + 1)).total - (rounds time).total := by
              rw [UInt64.toNat_sub_of_le _ _ (UInt64.le_iff_toNat_le.mpr (by omega)), hnowNat,
                hbeforeNat]
            simp only [hle, if_true, Option.bind_some, hsub, Option.some.injEq, true_and]
            exact eq_comm
          · simp [hle]

theorem sum_sub {ids : List δ} {before now : δ → Nat} (hle : ∀ id ∈ ids, before id ≤ now id) :
    (ids.map fun id => now id - before id).sum + (ids.map before).sum = (ids.map now).sum := by
  induction ids with
  | nil => rfl
  | cons id ids ih =>
      have hrest := ih fun other hother => hle other (List.mem_cons_of_mem _ hother)
      have hfirst := hle id List.mem_cons_self
      simp only [List.map_cons, List.sum_cons]
      omega

theorem total_sub_total [DecidableEq δ] {before now : GpuRound δ}
    (hsame : ∀ id, id ∈ before.ids ↔ id ∈ now.ids)
    (hle : ∀ id ∈ now.ids, before.energyAt id ≤ now.energyAt id) :
    before.total ≤ now.total ∧
      now.total - before.total =
        (now.ids.map fun id => now.energyAt id - before.energyAt id).sum := by
  have hperm : before.ids.Perm now.ids :=
    (List.perm_ext_iff_of_nodup before.distinct now.distinct).mpr hsame
  have hbefore : before.total = (now.ids.map before.energyAt).sum := by
    rw [before.total_eq_sum_ids]
    exact (hperm.map before.energyAt).sum_eq
  have hsum := sum_sub hle
  rw [now.total_eq_sum_ids, hbefore]
  omega

end Rounds

/-- Whatever the rounds were, what a round yields measures energy exactly when two
complete rounds whose sum does not fall read the same devices, none of them lower. -/
theorem energyDelta_measures_iff (F : Type) [Double F] {δ : Type} [DecidableEq δ]
    (rounds : Nat → GpuRound δ) (time : Nat) :
    (∀ joules : F, energyDelta F rounds time = some joules →
      ∃ earlier, time = earlier + 1 ∧ MeasuresEnergy (rounds earlier) (rounds time) joules) ↔
    ∀ earlier, time = earlier + 1 → (rounds earlier).Complete → (rounds time).Complete →
      (rounds earlier).total ≤ (rounds time).total →
        (∀ id, id ∈ (rounds earlier).ids ↔ id ∈ (rounds time).ids) ∧
          ∀ id ∈ (rounds time).ids, (rounds earlier).energyAt id ≤ (rounds time).energyAt id := by
  cases time with
  | zero => simp [energyDelta_zero]
  | succ time =>
      simp only [Nat.add_right_cancel_iff]
      constructor
      · rintro hmeasures _ rfl hbefore hnow hle
        obtain ⟨_, rfl, hexact⟩ := hmeasures _
          ((energyDelta_eq_some_iff rounds _ _).mpr ⟨hbefore, hnow, hle, rfl⟩)
        exact ⟨hexact.sameDevices, hexact.notLower⟩
      · intro hvisible joules hyields
        obtain ⟨hbefore, hnow, hle, rfl⟩ := (energyDelta_eq_some_iff rounds time joules).mp hyields
        obtain ⟨hsame, hnotLower⟩ := hvisible time rfl hbefore hnow hle
        refine ⟨time, rfl, hbefore, hnow, hsame, hnotLower, ?_⟩
        rw [(total_sub_total hsame hnotLower).2]

namespace Sample

def gpu (millijoules : UInt64) : Option Device := some ⟨none, none, some millijoules⟩

/-- Two GPUs; the first is reset while the second uses more than it had counted. -/
def resetRounds (time : Nat) : GpuRound String :=
  if time = 0 then ⟨[("gpu-0", gpu 100000), ("gpu-1", gpu 0)], by decide, by decide⟩
  else ⟨[("gpu-0", gpu 0), ("gpu-1", gpu 300000)], by decide, by decide⟩

/-- The reset passes for less energy than the second GPU used. -/
theorem resetRounds_yield :
    energyDelta Whole resetRounds 1 = some ⟨200⟩ ∧
      (resetRounds 1).energyAt "gpu-0" < (resetRounds 0).energyAt "gpu-0" ∧
      ((resetRounds 1).ids.map fun id =>
        (resetRounds 1).energyAt id - (resetRounds 0).energyAt id).sum = 300000 := by
  decide +kernel

end Sample

end VllmColdstartOperator
