import VllmColdstartOperator.Foundation.Runs
import VllmColdstartOperator.Guarantees.Spread

/-!
# A batch is one replica at a time

Scaling a fleet up in one reconcile plans its new slots on a simulated load;
scaling it up by one replica a reconcile plans each on the load of the children
it finds.  Both bookkeepings give the candidates the same counts, so both pin
the same nodes.
-/

namespace VllmColdstartOperator

open Foundation Std

/-! ## The same cluster at another replica count -/

def ObjectMeta.owns (metadata : ObjectMeta) (service : VllmService) : Bool :=
  service.metadata.ns = metadata.ns ∧ service.metadata.label fleetLabel = some metadata.name

def othersOf (metadata : ObjectMeta) (services : Option (List VllmService)) :
    Option (List VllmService) :=
  services.map (List.filter fun service => !metadata.owns service)

def Round.scaledTo (round : Round) (replicas : Int32) (services : Option (List VllmService))
    (observed : String → Option VllmServiceStatus) : Round where
  spec := { round.spec with replicas := replicas }
  snapshot := { round.snapshot with allServices := services }
  observed := observed

/-! ## The fleet's own children lend no warmth -/

theorem deriveWarmth_others (instances : List WarmthInstance) :
    deriveWarmth (instances.filter fun warmthInstance => !warmthInstance.2.2) =
      deriveWarmth instances := by
  rw [deriveWarmth, deriveWarmth, List.foldl_filter]
  congr 1
  funext byNode ⟨node, phase, own⟩
  cases own <;> rfl

theorem warmthInstance_owns {fleet : FleetService} {service : VllmService}
    {warmth : WarmthInstance} (hwarmth : warmthInstance fleet service = some warmth) :
    warmth.2.2 = fleet.metadata.owns service := by
  unfold warmthInstance at hwarmth
  split at hwarmth
  · cases hwarmth
  · obtain ⟨node, -, heq⟩ := Option.bind_eq_some_iff.mp hwarmth
    cases heq
    rfl

theorem filterMap_others (fleet : FleetService) (services : List VllmService) :
    (services.filter fun service => !fleet.metadata.owns service).filterMap
        (warmthInstance fleet) =
      (services.filterMap (warmthInstance fleet)).filter fun warmth => !warmth.2.2 := by
  rw [List.filterMap_filter, List.filter_filterMap]
  refine List.filterMap_congr fun service _ => ?_
  cases hwarmth : warmthInstance fleet service with
  | none => simp
  | some warmth =>
      rw [← warmthInstance_owns hwarmth, Option.filter_some]

namespace ReconcileInput

theorem derivedWarmth_others (input : ReconcileInput) :
    input.derivedWarmth =
      match othersOf input.fleet.metadata input.snapshot.allServices with
      | some services => deriveWarmth (services.filterMap (warmthInstance input.fleet))
      | none => ∅ := by
  rw [derivedWarmth, othersOf]
  cases input.snapshot.allServices with
  | none => rfl
  | some services =>
      rw [Option.map_some]
      dsimp only
      rw [filterMap_others, deriveWarmth_others]

end ReconcileInput

/-! ## Consecutive slots -/

theorem filterMap_getElem?_range {α : Type} (values : List α) :
    (List.range values.length).filterMap (fun index => values[index]?) = values := by
  induction values with
  | nil => rfl
  | cons value values ih =>
      rw [List.length_cons, List.range_succ_eq_map, List.filterMap_cons, List.filterMap_map]
      simp only [List.getElem?_cons_zero, Function.comp_def, Nat.succ_eq_add_one,
        List.getElem?_cons_succ, ih]

theorem lookup_zip_range' (names : List String) (start count index : Nat) (hlow : start ≤ index)
    (hhigh : index < start + count) :
    ((List.range' start count).zip names).lookup index = names[index - start]? := by
  induction count generalizing start names with
  | zero => omega
  | succ count ih =>
      cases names with
      | nil => simp
      | cons name names =>
          rw [List.range'_succ, List.zip_cons_cons, List.lookup_cons]
          by_cases hfirst : index = start
          · simp [hfirst]
          · have hrest : index - start = (index - (start + 1)) + 1 := by omega
            have hne : (index == start) = false := by simpa using hfirst
            rw [hne, hrest, List.getElem?_cons_succ]
            exact ih names (start + 1) (by omega) (by omega)

/-! ## Simulated load and folded load -/

theorem foldOwnLoad_loadedBy {before after : BTreeMap String Int32}
    {warmth : BTreeMap String Warmth} {candidate : NodeCandidate} {own placed : Nat}
    (hbefore : (before[candidate.name]?).getD 0 = Int32.ofNat own)
    (hafter : (after[candidate.name]?).getD 0 = Int32.ofNat (own + placed))
    (hsmall : own + placed < 2 ^ 31) :
    foldOwnLoad after warmth candidate = (foldOwnLoad before warmth candidate).loadedBy placed := by
  have hpositive : ∀ count : Nat, count < 2 ^ 31 → (Int32.ofNat count > 0 ↔ 0 < count) := by
    intro count hlt
    rw [gt_iff_lt, Int32.lt_iff_toInt_lt, Int32.toInt_ofNat_of_lt hlt]
    exact Int.natCast_pos
  cases placed with
  | zero => rw [loadedBy_zero, foldOwnLoad, foldOwnLoad, hafter, hbefore, Nat.add_zero]
  | succ placed =>
      have hlater := (hpositive (own + (placed + 1)) hsmall).mpr (Nat.succ_pos _)
      rw [foldOwnLoad, foldOwnLoad, hafter, hbefore, NodeCandidate.loadedBy,
        if_neg (Nat.succ_ne_zero placed)]
      dsimp only
      rw [if_pos hlater, ← Int32.ofNat_add]
      by_cases hown : 0 < own
      · rw [if_pos ((hpositive own (by omega)).mpr hown), Option.getD_some, Int32.add_assoc,
          ← Int32.ofNat_add]
      · have hzero : own = 0 := by omega
        rw [if_neg (fun h => hown ((hpositive own (by omega)).mp h)), hzero, Nat.zero_add]

namespace ReconcileInput

variable {input : ReconcileInput}

/-! ## Planning behind a full prefix -/

theorem missing_of_prefix {occupied : Nat}
    (hslots : ∀ index, (input.current[index]?).isSome = true ↔ index < occupied) :
    input.missing = List.range' occupied (input.desired - occupied) := by
  have hmem : ∀ index, index ∉ input.current ↔ occupied ≤ index := by
    intro index
    rw [← ExtTreeMap.isSome_getElem?_iff_mem, hslots, Nat.not_lt]
  rw [missing]
  simp only [hmem]
  generalize input.desired = desired
  rcases Nat.le_total desired occupied with hle | hle
  · rw [Nat.sub_eq_zero_of_le hle, List.range'_zero, List.filter_eq_nil_iff]
    intro index hindex
    have hlt := List.mem_range.mp hindex
    simp only [decide_eq_true_eq]
    omega
  · have hsplit : List.range desired =
        List.range' 0 occupied ++ List.range' occupied (desired - occupied) := by
      have happend := @List.range'_append_1 0 occupied (desired - occupied)
      rw [Nat.zero_add, Nat.add_sub_cancel' hle] at happend
      rw [happend, List.range_eq_range']
    rw [hsplit, List.filter_append, List.filter_eq_nil_iff.mpr, List.filter_eq_self.mpr,
      List.nil_append]
    · intro index hindex
      have hlow := (List.mem_range'_1.mp hindex).1
      simpa using hlow
    · intro index hindex
      have hhigh := (List.mem_range'_1.mp hindex).2
      simp only [decide_eq_true_eq]
      omega

theorem pin_of_prefix {occupied index : Nat}
    (hslots : ∀ index, (input.current[index]?).isSome = true ↔ index < occupied)
    (hkept : ∀ (index : Nat) (node : String),
      input.current[index]? = some node → node ∉ input.displaced)
    (hrange : index < input.desired) :
    input.pin index = if index < occupied then input.current[index]?
      else (planPicks input.strategy input.horizonSecs (input.desired - occupied)
        input.healthyCandidates)[index - occupied]? := by
  have hmissing := missing_of_prefix hslots
  by_cases hindex : index < occupied
  · obtain ⟨node, hnode⟩ := Option.isSome_iff_exists.mp ((hslots index).mpr hindex)
    rw [if_pos hindex, hnode]
    refine pin_of_kept (fun hmoved => ?_) hnode
    obtain ⟨⟨held, hheld, hdisplaced⟩, -⟩ := of_mem_movedSlots hmoved
    exact hkept index held hheld hdisplaced
  · have hnone : input.current[index]? = none := by
      rw [← Option.not_isSome_iff_eq_none, hslots]
      exact hindex
    rw [if_neg hindex, pin_of_missing hnone, fresh_eq, hmissing, List.length_range']
    exact lookup_zip_range' _ _ _ _ (Nat.not_lt.mp hindex) (by omega)

end ReconcileInput

namespace World

variable {world : World} {metadata : ObjectMeta} {base : Round}

/-- A fleet whose children occupy the first slots, none on a displaced node, in
a cluster of distinct candidate names. -/
structure OccupiesFirst (world : World) (metadata : ObjectMeta) (base : Round)
    (occupied : Nat) : Prop where
  owned : world.Owned metadata.name
  slots : ∀ index, (world.pin metadata.name index).isSome = true ↔ index < occupied
  kept : ∀ index node, world.pin metadata.name index = some node →
    node ∉ base.snapshot.displaced
  names : ((world.input metadata base).poolCandidates.map NodeCandidate.name).Nodup

/-- A fleet grown from another by the picks, one for each slot after the first
occupied ones. -/
structure GrownBy (grown world : World) (fleetName : String) (occupied : Nat)
    (picks : List String) : Prop where
  owned : grown.Owned fleetName
  pins : ∀ index, grown.pin fleetName index =
    if index < occupied then world.pin fleetName index else picks[index - occupied]?

theorem scaledTo_derivedWarmth (grown : World) {replicas : Int32}
    {services : Option (List VllmService)} {observed : String → Option VllmServiceStatus}
    (hothers : othersOf metadata services = othersOf metadata base.snapshot.allServices) :
    (grown.input metadata (base.scaledTo replicas services observed)).derivedWarmth =
      (world.input metadata base).derivedWarmth := by
  rw [ReconcileInput.derivedWarmth_others, ReconcileInput.derivedWarmth_others]
  change (match othersOf metadata services with
    | some services => _
    | none => _) = match othersOf metadata base.snapshot.allServices with
    | some services => _
    | none => _
  rw [hothers]
  rfl

namespace GrownBy

variable {grown : World} {occupied : Nat} {picks : List String}
  (hgrown : grown.GrownBy world metadata.name occupied picks)

include hgrown

theorem current (round : Round) (index : Nat) :
    (grown.input metadata round).current[index]? =
      if index < occupied then world.pin metadata.name index else picks[index - occupied]? := by
  rw [hgrown.owned.current_lookup, hgrown.pins]

variable (hfirst : world.OccupiesFirst metadata base occupied)

include hfirst

theorem occupied_add (round : Round) (index : Nat) :
    ((grown.input metadata round).current[index]?).isSome = true ↔
      index < occupied + picks.length := by
  rw [hgrown.current]
  by_cases hindex : index < occupied
  · rw [if_pos hindex, hfirst.slots]
    omega
  · rw [if_neg hindex, Option.isSome_iff_ne_none, ne_eq, List.getElem?_eq_none_iff]
    omega

theorem values (round : Round) :
    (grown.input metadata round).current.toList.map Prod.snd =
      (List.range occupied).filterMap (world.pin metadata.name) ++ picks := by
  have hbound : ∀ (index : Nat) (node : String),
      (grown.input metadata round).current[index]? = some node →
        index < occupied + picks.length := by
    intro index node hlookup
    rw [← hgrown.occupied_add hfirst round, hlookup]
    rfl
  have hkept : ∀ index ∈ List.range occupied,
      (grown.input metadata round).current[index]? = world.pin metadata.name index := by
    intro index hindex
    rw [hgrown.current, if_pos (List.mem_range.mp hindex)]
  have hpicked : ∀ index, (grown.input metadata round).current[occupied + index]? =
      picks[index]? := by
    intro index
    rw [hgrown.current, if_neg (by omega), Nat.add_sub_cancel_left]
  rw [BTreeMap.values_eq_range _ hbound, List.range_add, List.filterMap_append,
    List.filterMap_congr hkept, List.filterMap_map]
  congr 1
  simp only [Function.comp_def, hpicked]
  exact filterMap_getElem?_range picks

theorem existingPins (round : Round) (node : String) :
    (grown.input metadata round).existingPins node =
      ((List.range occupied).filterMap (world.pin metadata.name)).count node +
        picks.count node := by
  rw [ReconcileInput.existingPins, hgrown.values hfirst, List.count_append]

theorem existingPins_le (round : Round) (node : String) :
    (grown.input metadata round).existingPins node ≤ occupied + picks.length := by
  have hle := List.length_filterMap_le (world.pin metadata.name) (List.range occupied)
  rw [List.length_range] at hle
  rw [ReconcileInput.existingPins, hgrown.values hfirst]
  refine List.count_le_length.trans ?_
  rw [List.length_append]
  omega

end GrownBy

namespace OccupiesFirst

variable {grown : World} {occupied : Nat} {picks : List String}
  (hfirst : world.OccupiesFirst metadata base occupied)

include hfirst

theorem grownBy_nil : world.GrownBy world metadata.name occupied [] := by
  refine ⟨hfirst.owned, fun index => ?_⟩
  split
  · rfl
  · next hindex => simpa using (hfirst.slots index).not.mpr hindex

theorem healthy_nodup :
    ((world.input metadata base).healthyCandidates.map NodeCandidate.name).Nodup := by
  refine ((List.filter_sublist.trans List.filter_sublist).map _).nodup ?_
  rw [ReconcileInput.candidates, List.map_map]
  exact hfirst.names

end OccupiesFirst

section Growth

variable {grown : World} {occupied : Nat} {picks : List String} {replicas : Int32}
  {services : Option (List VllmService)} {observed : String → Option VllmServiceStatus}
  (hgrown : grown.GrownBy world metadata.name occupied picks)
  (hfirst : world.OccupiesFirst metadata base occupied)
  (hothers : othersOf metadata services = othersOf metadata base.snapshot.allServices)

include hgrown hfirst hothers

theorem GrownBy.healthyCandidates (hsmall : occupied + picks.length < 2 ^ 31) :
    (grown.input metadata (base.scaledTo replicas services observed)).healthyCandidates =
      picks.foldl (fun working name => simulatePlacement name working)
        (world.input metadata base).healthyCandidates := by
  have hfolded : (grown.input metadata (base.scaledTo replicas services observed)).candidates =
      (world.input metadata base).candidates.map fun candidate =>
        candidate.loadedBy (picks.count candidate.name) := by
    rw [ReconcileInput.candidates, scaledTo_derivedWarmth grown hothers,
      ReconcileInput.candidates, List.map_map]
    refine List.map_congr_left fun candidate _ => ?_
    have hbefore := hfirst.grownBy_nil.existingPins hfirst base candidate.name
    have hcount := hgrown.existingPins hfirst
      (base.scaledTo replicas services observed) candidate.name
    have hle := hgrown.existingPins_le hfirst
      (base.scaledTo replicas services observed) candidate.name
    rw [List.count_nil, Nat.add_zero] at hbefore
    rw [← hbefore] at hcount
    rw [hcount] at hle
    refine foldOwnLoad_loadedBy (ReconcileInput.ownPlacementsPerNode_lookup _ _) ?_
      (Nat.lt_of_le_of_lt hle hsmall)
    exact (ReconcileInput.ownPlacementsPerNode_lookup _ _).trans (congrArg Int32.ofNat hcount)
  rw [foldl_simulatePlacement hfirst.healthy_nodup, ReconcileInput.healthyCandidates, hfolded,
    List.filter_map, List.filter_map, ReconcileInput.healthyCandidates]
  simp only [Function.comp_def, loadedBy_name]
  rfl

/-- A reconcile grows the fleet by what it plans on the simulated load. -/
theorem GrownBy.reconcile (hfull : base.IsFull metadata)
    (hpicks : ∀ node ∈ picks, node ∉ base.snapshot.displaced)
    (hreplicas : occupied + picks.length ≤ replicas.toInt.toNat) :
    (grown.reconcile metadata (base.scaledTo replicas services observed)).GrownBy world
      metadata.name occupied
      (picks ++ planPicks base.spec.placement.strategy base.spec.placement.signalMaxAgeSeconds
        (replicas.toInt.toNat - (occupied + picks.length))
        (picks.foldl (fun working name => simulatePlacement name working)
          (world.input metadata base).healthyCandidates)) := by
  have hround : (base.scaledTo replicas services observed).IsFull metadata := hfull
  have hsmall : occupied + picks.length < 2 ^ 31 := by
    have hlt := replicas.toInt_lt
    omega
  have hhealthy := @GrownBy.healthyCandidates world metadata base grown occupied picks replicas
    services observed hgrown hfirst hothers hsmall
  have hcurrent := hgrown.current (base.scaledTo replicas services observed)
  have hoccupied := hgrown.occupied_add hfirst (base.scaledTo replicas services observed)
  have hsafe : ∀ (index : Nat) (node : String),
      (grown.input metadata (base.scaledTo replicas services observed)).current[index]? =
        some node → node ∉ base.snapshot.displaced := by
    intro index node hlookup
    rw [hcurrent] at hlookup
    split at hlookup
    · exact hfirst.kept index node hlookup
    · exact hpicks node (List.mem_of_getElem? hlookup)
  refine ⟨hgrown.owned.reconcile, fun index => ?_⟩
  rw [hgrown.owned.reconcile_pin hround]
  have hdesired : (grown.input metadata (base.scaledTo replicas services observed)).desired =
      replicas.toInt.toNat := rfl
  by_cases hrange : index < replicas.toInt.toNat
  · rw [hdesired, if_pos hrange, ReconcileInput.pin_of_prefix hoccupied hsafe hrange, hcurrent,
      hhealthy, List.getElem?_append]
    by_cases hindex : index < occupied
    · rw [if_pos hindex, if_pos hindex, if_pos (by omega)]
    · have hposition : index < occupied + picks.length ↔ index - occupied < picks.length := by
        omega
      simp only [hindex, if_false, hposition, Nat.sub_add_eq]
      rfl
  · have habsent : grown.pin metadata.name index = none := by
      rw [hgrown.pins, if_neg (by omega), List.getElem?_eq_none_iff]
      omega
    have hlength := @planPicks_length_le base.spec.placement.strategy
      base.spec.placement.signalMaxAgeSeconds
      (replicas.toInt.toNat - (occupied + picks.length))
      (picks.foldl (fun working name => simulatePlacement name working)
        (world.input metadata base).healthyCandidates)
    rw [hdesired, if_neg hrange, habsent, ite_self, if_neg (by omega), eq_comm,
      List.getElem?_eq_none_iff, List.length_append]
    omega

end Growth

end World

/-! ## One replica at a time -/

def Round.oneByOne (base : Round) (occupied : Nat)
    (services : Nat → Option (List VllmService))
    (observed : Nat → String → Option VllmServiceStatus) (step : Nat) : Round :=
  base.scaledTo (Int32.ofNat (occupied + step + 1)) (services step) (observed step)

namespace World.OccupiesFirst

variable {world : World} {metadata : ObjectMeta} {base : Round} {occupied : Nat}

theorem picks_not_displaced {slots : Nat} {node : String}
    (hmem : node ∈ planPicks base.spec.placement.strategy
      base.spec.placement.signalMaxAgeSeconds slots
      (world.input metadata base).healthyCandidates) :
    node ∉ base.snapshot.displaced := by
  obtain ⟨candidate, hcandidate, rfl⟩ := List.mem_map.mp (planPicks_mem hmem)
  exact (ReconcileInput.mem_healthyCandidates hcandidate).2

variable (hfirst : world.OccupiesFirst metadata base occupied)

include hfirst

theorem fresh_eq : (world.input metadata base).fresh =
    planPicks base.spec.placement.strategy base.spec.placement.signalMaxAgeSeconds
      (base.spec.replicas.toInt.toNat - occupied)
      (world.input metadata base).healthyCandidates := by
  have hmissing := ReconcileInput.missing_of_prefix
    (hfirst.grownBy_nil.occupied_add hfirst base)
  rw [ReconcileInput.fresh_eq, hmissing, List.length_range']
  rfl

theorem run_grownBy (hfull : base.IsFull metadata)
    {services : Nat → Option (List VllmService)}
    (observed : Nat → String → Option VllmServiceStatus)
    (hothers : ∀ step,
      othersOf metadata (services step) = othersOf metadata base.snapshot.allServices)
    {steps : Nat} (hsteps : occupied + steps < 2 ^ 31) :
    (run (fun round grown => World.reconcile grown metadata round)
        (base.oneByOne occupied services observed) world steps).GrownBy world metadata.name
      occupied
      (planPicks base.spec.placement.strategy base.spec.placement.signalMaxAgeSeconds steps
        (world.input metadata base).healthyCandidates) := by
  induction steps with
  | zero => exact hfirst.grownBy_nil
  | succ step ih =>
      have hgrown := ih (by omega)
      have hreplicas : (Int32.ofNat (occupied + step + 1)).toInt.toNat = occupied + step + 1 := by
        rw [Int32.toInt_ofNat_of_lt (by omega), Int.toNat_natCast]
      have hlength := @planPicks_length_le base.spec.placement.strategy
        base.spec.placement.signalMaxAgeSeconds step (world.input metadata base).healthyCandidates
      have hnext := @GrownBy.reconcile world metadata base _ occupied _
        (Int32.ofNat (occupied + step + 1)) (services step) (observed step) hgrown hfirst
        (hothers step) hfull (fun _ => picks_not_displaced) (by rw [hreplicas]; omega)
      rw [hreplicas] at hnext
      rw [run_succ, planPicks_add]
      by_cases hhealthy : (world.input metadata base).healthyCandidates = []
      · simp only [hhealthy, planPicks_nil, List.foldl_nil, List.append_nil] at hnext ⊢
        exact hnext
      · rw [planPicks_length hfull.2.1 step hhealthy] at hnext
        have hone : occupied + step + 1 - (occupied + step) = 1 := by omega
        rw [hone] at hnext
        exact hnext

end World.OccupiesFirst

open World in
/-- Scaling up in one reconcile pins the nodes that scaling up by one replica a
reconcile pins, each on the load the planner simulated; and a smaller batch is
the beginning of a larger one. -/
theorem batch_is_one_by_one (metadata : ObjectMeta) (world : World) (base : Round)
    (occupied : Nat) (hfull : base.IsFull metadata)
    (hfirst : world.OccupiesFirst metadata base occupied)
    (hgrows : occupied ≤ base.spec.replicas.toInt.toNat)
    (services : Nat → Option (List VllmService))
    (observed : Nat → String → Option VllmServiceStatus)
    (hothers : ∀ step,
      othersOf metadata (services step) = othersOf metadata base.snapshot.allServices) :
    let rounds := base.oneByOne occupied services observed
    let grown := run (fun round grown => World.reconcile grown metadata round) rounds world
    let added := base.spec.replicas.toInt.toNat - occupied
    (∀ index, (world.reconcile metadata base).pin metadata.name index =
      (grown added).pin metadata.name index) ∧
    (∀ step ≤ added, ((grown step).input metadata (rounds step)).healthyCandidates =
      ((world.input metadata base).fresh.take step).foldl
        (fun working name => simulatePlacement name working)
        (world.input metadata base).healthyCandidates) ∧
    ∀ (fewer more : Int32) (candidates : List NodeCandidate), fewer ≤ more →
      planInitialPlacements fewer candidates base.spec.placement.strategy
          base.spec.placement.signalMaxAgeSeconds <+:
        planInitialPlacements more candidates base.spec.placement.strategy
          base.spec.placement.signalMaxAgeSeconds := by
  intro rounds grown added
  have hlt := base.spec.replicas.toInt_lt
  have hrun : ∀ step ≤ added, (grown step).GrownBy world metadata.name occupied
      (planPicks base.spec.placement.strategy base.spec.placement.signalMaxAgeSeconds step
        (world.input metadata base).healthyCandidates) := by
    intro step hstep
    refine hfirst.run_grownBy hfull observed hothers ?_
    omega
  refine ⟨fun index => ?_, fun step hstep => ?_, fun _ _ candidates hle =>
    planInitialPlacements_prefix hle candidates⟩
  · have hbatch := @GrownBy.reconcile world metadata base world occupied []
      base.spec.replicas base.snapshot.allServices base.observed hfirst.grownBy_nil hfirst rfl
      hfull (by simp) hgrows
    rw [(hrun added le_rfl).pins]
    exact hbatch.pins index
  · have hlength := @planPicks_length_le base.spec.placement.strategy
      base.spec.placement.signalMaxAgeSeconds step (world.input metadata base).healthyCandidates
    have htake : (world.input metadata base).fresh.take step =
        planPicks base.spec.placement.strategy base.spec.placement.signalMaxAgeSeconds step
          (world.input metadata base).healthyCandidates := by
      rw [hfirst.fresh_eq]
      exact planPicks_take hfull.2.1 hstep _
    rw [htake]
    refine (hrun step hstep).healthyCandidates hfirst (hothers step) ?_
    omega

namespace Sample

/-- Three replicas wanted, one of them on the first of two nodes. -/
def growing : Round := round (spec 3 1 1) (snapshot ["a", "b"] []) []

theorem growing_occupiesFirst : (pinned [(0, "a")]).OccupiesFirst metadata growing 1 := by
  have hpin : ∀ index node, (pinned [(0, "a")]).pin metadata.name index = some node →
      index = 0 ∧ node = "a" := by
    intro index node hpin
    simpa using pinned_slot hpin
  refine ⟨pinned_owned (by decide), fun index => ?_, fun index node hslot => ?_, by decide⟩
  · constructor
    · intro hsome
      obtain ⟨node, hnode⟩ := Option.isSome_iff_exists.mp hsome
      rw [(hpin index node hnode).1]
      exact Nat.one_pos
    · intro hlt
      rw [Nat.lt_one_iff.mp hlt]
      decide
  · rw [(hpin index node hslot).2]
    decide

theorem batch_is_one_by_one_sample :
    ((pinned [(0, "a")]).reconcile metadata growing).pin metadata.name 2 =
      (run (fun round grown => World.reconcile grown metadata round)
        (growing.oneByOne 1 (fun _ => some []) fun _ _ => none)
        (pinned [(0, "a")]) 2).pin metadata.name 2 :=
  (batch_is_one_by_one metadata _ growing 1 (round_isFull rfl (by decide))
    growing_occupiesFirst (by decide) (fun _ => some []) (fun _ _ => none)
    (fun _ => rfl)).1 2

end Sample

end VllmColdstartOperator
