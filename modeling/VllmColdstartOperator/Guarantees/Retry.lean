import VllmColdstartOperator.Guarantees.Resumption

/-!
# A cut reconcile and its retry

A reconcile that is cut has written the pins of some slots and no status.  The
retry reads those pins from the children and its budget from the status, so a
move made before the cut is not in flight for it.
-/

namespace VllmColdstartOperator

open Foundation Std

namespace World

variable {world : World} {metadata : ObjectMeta} {round : Round} {made : Nat} {best : String}

/-! ## The children a cut reconcile leaves -/

section Cut

variable (hfull : round.IsFull metadata)
  (htarget : (world.input metadata round).target = some best)

include hfull htarget

theorem cut_pin {index : Nat} (hrange : index < (world.input metadata round).desired) :
    (world.attempt metadata round made).pin metadata.name index =
      if index < made then (world.input metadata round).pin index
      else world.pin metadata.name index := by
  have hkept : index ∉ ((world.input metadata round).removedSlots.take
      (made - (world.input metadata round).slotNodes.length)).map Prod.fst := by
    intro hmem
    obtain ⟨⟨_, node⟩, htake, rfl⟩ := List.mem_map.mp hmem
    exact ((ReconcileInput.mem_removedSlots _ node).mp (List.mem_of_mem_take htake)).2.1 hrange
  have hchild := children_take world (world.input metadata round) made index
  rw [if_neg hkept, @ReconcileInput.slotNodes_take_lookup (world.input metadata round) hfull.2.1
    (ReconcileInput.healthy_of_target htarget) _ _ hrange, ← attempt_children hfull] at hchild
  obtain ⟨node, hnode⟩ := @ReconcileInput.pin_isSome (world.input metadata round) hfull.2.1
    (ReconcileInput.healthy_of_target htarget) _ hrange
  rw [pin]
  refine (congrArg (fun child => Option.bind child fun child => child.spec.nodeName)
    hchild).trans ?_
  split
  · rw [hnode]
    rfl
  · rfl

theorem cut_pin_of_surplus {index : Nat} (hrange : ¬ index < (world.input metadata round).desired)
    (hmade : made ≤ (world.input metadata round).desired) :
    (world.attempt metadata round made).pin metadata.name index =
      world.pin metadata.name index := by
  have hlength : (world.input metadata round).slotNodes.length =
      (world.input metadata round).desired := by
    rw [← List.length_map Prod.fst, @ReconcileInput.slotNodes_indices (world.input metadata round)
      hfull.2.1 (ReconcileInput.healthy_of_target htarget), List.length_range]
  have habsent : ((world.input metadata round).slotNodes.take made).lookup index = none := by
    rw [List.lookup_eq_none_iff]
    intro slot hslot
    have hlt := ((ReconcileInput.mem_slotNodes slot.1 slot.2).mp (List.mem_of_mem_take hslot)).1
    have hne : ¬ index = slot.1 := fun heq => hrange (heq ▸ hlt)
    simpa using hne
  have hchild := children_take world (world.input metadata round) made index
  rw [hlength, Nat.sub_eq_zero_of_le hmade, List.take_zero, habsent,
    ← attempt_children hfull] at hchild
  rw [pin, pin]
  exact congrArg (fun child => Option.bind child fun child => child.spec.nodeName) hchild

end Cut

section Retried

variable (howned : world.Owned metadata.name) (hfull : round.IsFull metadata)
  (hmade : made ≤ (world.input metadata round).childCalls.length)
  {services : Option (List VllmService)} {observed : String → Option VllmServiceStatus}

include howned hfull hmade

omit howned in
theorem cut_placements : (world.attempt metadata round made).placements = world.placements := by
  rw [placements, attempt_status hfull hmade, placements]

theorem retryOf
    (hothers : othersOf metadata services = othersOf metadata round.snapshot.allServices) :
    (world.input metadata round).RetryOf ((world.attempt metadata round made).input metadata
      (round.scaledTo round.spec.replicas services observed)) made := by
  have hcut : (world.attempt metadata round made).Owned metadata.name := howned.attempt made
  have hcurrent := hcut.current_lookup (round.scaledTo round.spec.replicas services observed)
  refine ⟨hfull.2.1, rfl, rfl, rfl, rfl, ?_, ?_, rfl, ?_, ?_, ?_⟩
  · rw [ReconcileInput.budget, ReconcileInput.inFlightMoves, input_placements,
      cut_placements hfull hmade]
    rfl
  · exact scaledTo_derivedWarmth _ hothers
  · intro hnone index hrange
    rw [hcurrent, howned.current_lookup]
    rcases attempt_child world metadata round made index with ⟨hout, -, -⟩ | hsame |
      ⟨node, -, hpin, happlied⟩
    · exact absurd hrange hout
    · rw [pin, hsame, pin]
    · rw [pin, happlied, ← howned.current_lookup round,
        ← ReconcileInput.pin_of_no_healthy hnone, hpin]
      rfl
  · intro hhealthy index hrange
    obtain ⟨best, hbest⟩ :=
      @ReconcileInput.target_isSome (world.input metadata round) hfull.2.1 hhealthy
    rw [hcurrent, cut_pin hfull hbest hrange, howned.current_lookup]
  · intro hhealthy hfew index hrange
    obtain ⟨best, hbest⟩ :=
      @ReconcileInput.target_isSome (world.input metadata round) hfull.2.1 hhealthy
    rw [hcurrent, cut_pin_of_surplus hfull hbest hrange hfew, howned.current_lookup]

theorem retried_surplus {index : Nat} (hrange : ¬ index < (world.input metadata round).desired) :
    ((world.attempt metadata round made).reconcile metadata
        (round.scaledTo round.spec.replicas services observed)).pin metadata.name index =
      (world.reconcile metadata round).pin metadata.name index := by
  have hretried : (round.scaledTo round.spec.replicas services observed).IsFull metadata := hfull
  have houtcome : ((world.attempt metadata round made).input metadata
      (round.scaledTo round.spec.replicas services observed)).surplusOutcome index =
      (world.input metadata round).surplusOutcome index := by
    rw [ReconcileInput.surplusOutcome, ReconcileInput.prevSurplus, input_placements,
      cut_placements hfull hmade]
    rfl
  have hdesired : ((world.attempt metadata round made).input metadata
      (round.scaledTo round.spec.replicas services observed)).desired =
      (world.input metadata round).desired := rfl
  rw [(howned.attempt made).reconcile_pin hretried, howned.reconcile_pin hfull, hdesired,
    if_neg hrange, if_neg hrange, houtcome]
  split
  · rfl
  · next hheld =>
      rcases attempt_child world metadata round made index with ⟨-, hremoved, -⟩ | hsame |
        ⟨node, hinRange, -, -⟩
      · exact absurd hremoved hheld
      · rw [pin, hsame, pin]
      · exact absurd hinRange hrange

theorem retried_pins_iff :
    (∀ index, ((world.attempt metadata round made).reconcile metadata
        (round.scaledTo round.spec.replicas services observed)).pin metadata.name index =
      (world.reconcile metadata round).pin metadata.name index) ↔
      ∀ index < (world.input metadata round).desired,
        ((world.attempt metadata round made).input metadata
          (round.scaledTo round.spec.replicas services observed)).pin index =
          (world.input metadata round).pin index := by
  have hretried : (round.scaledTo round.spec.replicas services observed).IsFull metadata := hfull
  have hinRange : ∀ index < (world.input metadata round).desired,
      ((world.attempt metadata round made).reconcile metadata
          (round.scaledTo round.spec.replicas services observed)).pin metadata.name index =
        ((world.attempt metadata round made).input metadata
          (round.scaledTo round.spec.replicas services observed)).pin index ∧
      (world.reconcile metadata round).pin metadata.name index =
        (world.input metadata round).pin index := by
    intro index hrange
    rw [(howned.attempt made).reconcile_pin hretried, howned.reconcile_pin hfull]
    exact ⟨if_pos hrange, if_pos hrange⟩
  constructor
  · intro hall index hrange
    rw [← (hinRange index hrange).1, hall, (hinRange index hrange).2]
  · intro hall index
    by_cases hrange : index < (world.input metadata round).desired
    · rw [(hinRange index hrange).1, hall index hrange, (hinRange index hrange).2]
    · exact retried_surplus howned hfull hmade hrange

end Retried

end World

open World in
/-- The retry of a cut reconcile leaves the pins of an uninterrupted one, and moves
no child that one does not move, exactly when the cut leaves it nothing else to
choose. -/
theorem retry_agrees_iff (metadata : ObjectMeta) (world : World) (round : Round)
    (howned : world.Owned metadata.name) (hslots : world.SlotsInRange metadata.name)
    (hnodes : ∀ nodes, round.snapshot.nodes = some nodes → (nodes.map Node.name).Nodup)
    (hfull : round.IsFull metadata) (made : Nat)
    (hmade : made ≤ (world.input metadata round).childCalls.length)
    (services : Option (List VllmService)) (observed : String → Option VllmServiceStatus)
    (hothers : othersOf metadata services = othersOf metadata round.snapshot.allServices) :
    let cut := world.attempt metadata round made
    let retried := cut.reconcile metadata (round.scaledTo round.spec.replicas services observed)
    let whole := world.reconcile metadata round
    ((∀ index, retried.pin metadata.name index = whole.pin metadata.name index) ∧
      ∀ index node, cut.pin metadata.name index = some node →
        retried.pin metadata.name index ≠ some node →
        world.pin metadata.name index = some node ∧ whole.pin metadata.name index ≠ some node) ↔
      (world.input metadata round).RetryAgrees made := by
  intro cut retried whole
  have hretry := @retryOf world metadata round made howned hfull hmade services observed hothers
  rw [← hretry.agrees_iff (hslots.current howned) hnodes,
    ← @retried_pins_iff world metadata round made howned hfull hmade services observed]
  refine ⟨And.left, fun hpins => ⟨hpins, fun index node hcut hchanged => ?_⟩⟩
  change cut.pin metadata.name index = some node at hcut
  rw [show retried.pin metadata.name index = whole.pin metadata.name index from hpins index]
    at hchanged
  rcases attempt_child world metadata round made index with ⟨-, -, hnone⟩ | hsame |
    ⟨written, hrange, hpin, happlied⟩
  · rw [pin, show cut.children[childName metadata.name index]? = none from hnone] at hcut
    cases hcut
  · rw [pin, show cut.children[childName metadata.name index]? =
      world.children[childName metadata.name index]? from hsame] at hcut
    exact ⟨hcut, hchanged⟩
  · rw [pin, show cut.children[childName metadata.name index]? = some _ from happlied] at hcut
    cases hcut
    rw [howned.reconcile_pin hfull, if_pos hrange, hpin] at hchanged
    exact absurd rfl hchanged

namespace Sample

/-- Both replicas on one node, which then gets a notice; one move at a time. -/
def onOneNode : World := empty.reconcile metadata (round (spec 2 1 1) (snapshot ["gone"] []) [])

def noticed : Round := round (spec 2 1 1) (snapshot ["gone", "a"] ["gone"]) []

theorem onOneNode_owned : onOneNode.Owned metadata.name := (empty_owned _).reconcile

theorem onOneNode_slotsInRange : onOneNode.SlotsInRange metadata.name := by
  obtain ⟨made, heq⟩ := World.reconcile_eq_attempt empty metadata
    (round (spec 2 1 1) (snapshot ["gone"] []) [])
  have hempty : empty.SlotsInRange metadata.name := by
    intro index node hpin
    simp [World.pin, empty] at hpin
  rw [onOneNode, heq]
  exact hempty.attempt made

theorem noticed_nodes (nodes : List Node) (hread : noticed.snapshot.nodes = some nodes) :
    (nodes.map Node.name).Nodup := by
  cases hread
  exact List.nodup_nil

/-- The notice, with both moves allowed at a time. -/
def noticedBoth : Round := round (spec 2 1 2) (snapshot ["gone", "a"] ["gone"]) []

theorem noticedBoth_agrees : (onOneNode.input metadata noticedBoth).RetryAgrees 1 := by
  intro best hbest
  have hnames : (onOneNode.input metadata noticedBoth).healthyNames = {"a"} := by decide +kernel
  have hname : best.name = "a" := by
    rw [← Finset.mem_singleton, ← hnames]
    exact List.mem_toFinset.mpr (List.mem_map_of_mem (selectNodeWithStrategy_mem hbest))
  refine ⟨.inr (by decide +kernel), fun _ other hother hne => ?_, fun turn _ hturn => ?_⟩
  · rw [hnames, Finset.mem_singleton] at hother
    exact absurd (hother.trans hname.symm) hne
  · have hnone : (onOneNode.input metadata noticedBoth).missing.length = 0 := by decide +kernel
    omega

/-- Cut after the first of two moves it may make, the reconcile is retried alike. -/
theorem retry_agrees_iff_sample :
    let cut := onOneNode.attempt metadata noticedBoth 1
    let retried := cut.reconcile metadata (noticedBoth.scaledTo 2 (some []) noticedBoth.observed)
    let whole := onOneNode.reconcile metadata noticedBoth
    (∀ index, retried.pin metadata.name index = whole.pin metadata.name index) ∧
      ∀ index node, cut.pin metadata.name index = some node →
        retried.pin metadata.name index ≠ some node →
        onOneNode.pin metadata.name index = some node ∧
          whole.pin metadata.name index ≠ some node :=
  (retry_agrees_iff metadata onOneNode noticedBoth onOneNode_owned onOneNode_slotsInRange
    noticed_nodes (round_isFull rfl (by decide)) 1 (by decide) (some []) noticedBoth.observed
    rfl).mpr noticedBoth_agrees

/-- Cut after its one move, the reconcile is retried with another. -/
theorem retry_counterexample :
    ¬ ∀ (metadata : ObjectMeta) (world : World) (round : Round), world.Owned metadata.name →
      world.SlotsInRange metadata.name →
      (∀ nodes, round.snapshot.nodes = some nodes → (nodes.map Node.name).Nodup) →
      round.IsFull metadata → ∀ made ≤ (world.input metadata round).childCalls.length, ∀ index,
        ((world.attempt metadata round made).reconcile metadata round).pin metadata.name index =
          (world.reconcile metadata round).pin metadata.name index := by
  intro hall
  have hsame := hall metadata onOneNode noticed onOneNode_owned onOneNode_slotsInRange
    noticed_nodes (round_isFull rfl (by decide)) 1 (by decide) 1
  revert hsame
  decide

end Sample

end VllmColdstartOperator
