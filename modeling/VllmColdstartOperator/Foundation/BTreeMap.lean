import Mathlib

/-!
# Ordered maps and sets

The ordered maps and sets a program iterates in key order, as extensional
search trees of the standard library.  `collect` builds a map from a sequence
of pairs, a later pair replacing an earlier one of the same key, and `joinAll`
keeps the greatest value of a key.
-/

namespace VllmColdstartOperator.Foundation

open Std

abbrev BTreeMap (K V : Type) [Ord K] := ExtTreeMap K V compare

abbrev BTreeSet (K : Type) [Ord K] := ExtTreeSet K compare

instance {K V : Type} [Ord K] [TransOrd K] [DecidableEq K] [DecidableEq V] :
    DecidableEq (BTreeMap K V) :=
  fun left right => decidable_of_iff (left.toList = right.toList) ExtTreeMap.toList_inj

namespace BTreeMap

section Lookup

variable {K V : Type} [Ord K] [TransOrd K] [LawfulEqOrd K]

theorem mem_keys_iff (map : BTreeMap K V) (key : K) :
    key ∈ map.toList.map Prod.fst ↔ ∃ value, map[key]? = some value := by
  simp only [List.mem_map, Prod.exists, exists_and_right, exists_eq_right,
    ExtTreeMap.mem_toList_iff_getElem?_eq_some]

theorem keys_nodup (map : BTreeMap K V) : (map.toList.map Prod.fst).Nodup := by
  rw [List.nodup_iff_pairwise_ne, List.pairwise_map]
  refine (ExtTreeMap.ordered_keys_toList (t := map)).imp ?_
  rintro left right hlt heq
  rw [heq, ReflOrd.compare_self] at hlt
  cases hlt

variable [DecidableEq K]

theorem lookup_insert (map : BTreeMap K V) (key other : K) (value : V) :
    (map.insert key value)[other]? = if key = other then some value else map[other]? := by
  rw [ExtTreeMap.getElem?_insert]
  simp only [LawfulEqCmp.compare_eq_iff_eq]

@[simp] theorem lookup_insert_of_ne (map : BTreeMap K V) {key other : K} (value : V)
    (hne : key ≠ other) : (map.insert key value)[other]? = map[other]? := by
  rw [lookup_insert, if_neg hne]

theorem lookup_erase (map : BTreeMap K V) (key other : K) :
    (map.erase key)[other]? = if key = other then none else map[other]? := by
  rw [ExtTreeMap.getElem?_erase]
  simp only [LawfulEqCmp.compare_eq_iff_eq]

theorem lookup_insertIfNew (map : BTreeMap K V) (key other : K) (value : V) :
    (map.insertIfNew key value)[other]? =
      if key = other ∧ map[other]? = none then some value else map[other]? := by
  rw [ExtTreeMap.getElem?_insertIfNew]
  simp only [LawfulEqCmp.compare_eq_iff_eq]
  by_cases hkey : key = other
  · subst hkey
    have habsent : key ∉ map ↔ map[key]? = none := by
      rw [← ExtTreeMap.isSome_getElem?_iff_mem, Option.not_isSome_iff_eq_none]
    simp only [true_and, habsent]
  · simp [hkey]

end Lookup

section Collect

variable {K V : Type} [Ord K] [TransOrd K]

def collect (pairs : List (K × V)) : BTreeMap K V :=
  pairs.foldl (fun map pair => map.insert pair.1 pair.2) ∅

variable [LawfulEqOrd K] [DecidableEq K]

theorem lookup_foldl_insert (pairs : List (K × V)) (map : BTreeMap K V) (key : K) :
    (pairs.foldl (fun map pair => map.insert pair.1 pair.2) map)[key]? =
      ((pairs.reverse.find? (fun pair => pair.1 = key)).map Prod.snd).or map[key]? := by
  induction pairs generalizing map with
  | nil => simp
  | cons pair pairs ih =>
      rw [List.foldl_cons, ih, List.reverse_cons, List.find?_append, lookup_insert]
      cases hfound : pairs.reverse.find? (fun pair => pair.1 = key) with
      | some found => simp
      | none =>
          by_cases hkey : pair.1 = key
          · simp [hkey]
          · simp [hkey]

theorem lookup_collect (pairs : List (K × V)) (key : K) :
    (collect pairs)[key]? =
      (pairs.reverse.find? (fun pair => pair.1 = key)).map Prod.snd := by
  rw [collect, lookup_foldl_insert]
  simp

theorem lookup_collect_map {W : Type} (change : V → W) (pairs : List (K × V)) (key : K) :
    (collect (pairs.map fun pair => (pair.1, change pair.2)))[key]? =
      ((collect pairs)[key]?).map change := by
  rw [lookup_collect, lookup_collect, ← List.map_reverse, List.find?_map]
  simp [Function.comp_def]

theorem mem_of_lookup_collect {pairs : List (K × V)} {key : K} {value : V}
    (hlookup : (collect pairs)[key]? = some value) : (key, value) ∈ pairs := by
  rw [lookup_collect, Option.map_eq_some_iff] at hlookup
  obtain ⟨⟨found, _⟩, hfind, rfl⟩ := hlookup
  have hkey : found = key := by simpa using List.find?_some hfind
  subst hkey
  simpa using List.mem_of_find?_eq_some hfind

theorem lookup_collect_eq_none {pairs : List (K × V)} {key : K}
    (habsent : ∀ value, (key, value) ∉ pairs) : (collect pairs)[key]? = none := by
  cases hlookup : (collect pairs)[key]? with
  | none => rfl
  | some value => exact absurd (mem_of_lookup_collect hlookup) (habsent value)

theorem lookup_collect_of_unique {pairs : List (K × V)} {key : K} {value : V}
    (hmem : (key, value) ∈ pairs)
    (hunique : ∀ other, (key, other) ∈ pairs → other = value) :
    (collect pairs)[key]? = some value := by
  cases hlookup : (collect pairs)[key]? with
  | some other => rw [hunique other (mem_of_lookup_collect hlookup)]
  | none =>
      rw [lookup_collect, Option.map_eq_none_iff, List.find?_eq_none] at hlookup
      exact absurd (hlookup (key, value) (by simpa using hmem)) (by simp)

theorem lookup_collect_eq {pairs : List (K × V)} {key : K} {found : Option V}
    (hpairs : ∀ value, (key, value) ∈ pairs ↔ found = some value) :
    (collect pairs)[key]? = found := by
  cases found with
  | some value =>
      refine lookup_collect_of_unique ((hpairs value).mpr rfl) fun other hother => ?_
      have hsame := (hpairs other).mp hother
      rw [Option.some.injEq] at hsame
      exact hsame.symm
  | none =>
      apply lookup_collect_eq_none
      intro value hmem
      cases (hpairs value).mp hmem

theorem forall_lookup_single {key : K} {value : V} {holds : K → V → Prop} :
    (∀ other held, (collect [(key, value)])[other]? = some held → holds other held) ↔
      holds key value := by
  simp only [collect, List.foldl_cons, List.foldl_nil, lookup_insert, ExtTreeMap.getElem?_empty]
  constructor
  · intro hall
    exact hall key value (if_pos rfl)
  · intro hsingle other held hheld
    split at hheld
    next hkey =>
      rw [Option.some.injEq] at hheld
      rw [← hkey, ← hheld]
      exact hsingle
    next => cases hheld

theorem collect_perm {pairs others : List (K × V)} (hperm : pairs.Perm others)
    (hkeys : (pairs.map Prod.fst).Nodup) : collect pairs = collect others := by
  refine ExtTreeMap.ext_getElem? fun key => lookup_collect_eq fun value => ?_
  have hunique : ∀ value other, (key, value) ∈ others → (key, other) ∈ others →
      other = value := by
    intro value other hvalue hother
    exact congrArg Prod.snd (List.inj_on_of_nodup_map hkeys (hperm.mem_iff.mpr hother)
      (hperm.mem_iff.mpr hvalue) rfl)
  rw [hperm.mem_iff]
  exact ⟨fun hmem => lookup_collect_of_unique hmem (hunique value · hmem), mem_of_lookup_collect⟩

end Collect

section Filter

variable {K V : Type} [Ord K] [TransOrd K] [LawfulEqOrd K] (map : BTreeMap K V)
  {test : V → Bool}

theorem lookup_filter (key : K) :
    (map.filter fun _ value => test value)[key]? = map[key]?.filter test :=
  ExtTreeMap.getElem?_filter'

variable [DecidableEq K]

theorem filter_insert (key : K) {value : V} (hvalue : test value = true) :
    ((map.insert key value).filter fun _ value => test value) =
      (map.filter fun _ value => test value).insert key value := by
  apply ExtTreeMap.ext_getElem?
  intro other
  rw [lookup_filter, lookup_insert, lookup_insert, lookup_filter]
  split
  · simp [hvalue]
  · rfl

theorem filter_insert_of_not {key : K} {value : V} (hvalue : test value = false)
    (hbefore : map[key]?.filter test = none) :
    ((map.insert key value).filter fun _ value => test value) =
      map.filter fun _ value => test value := by
  apply ExtTreeMap.ext_getElem?
  intro other
  rw [lookup_filter, lookup_insert, lookup_filter]
  split
  · next hkey =>
      subst hkey
      simp [hvalue, hbefore]
  · rfl

theorem filter_erase (key : K) :
    ((map.erase key).filter fun _ value => test value) =
      (map.filter fun _ value => test value).erase key := by
  apply ExtTreeMap.ext_getElem?
  intro other
  rw [lookup_filter, lookup_erase, lookup_erase, lookup_filter]
  split
  · rfl
  · rfl

theorem filter_erase_of_not {key : K} (hbefore : map[key]?.filter test = none) :
    ((map.erase key).filter fun _ value => test value) =
      map.filter fun _ value => test value := by
  apply ExtTreeMap.ext_getElem?
  intro other
  rw [lookup_filter, lookup_erase, lookup_filter]
  split
  · next hkey =>
      subst hkey
      exact hbefore.symm
  · rfl

end Filter

section Join

variable {K V : Type} [Ord K] [TransOrd K] [LinearOrder V] [OrderBot V]

/-- A key holds the greatest value joined to it. -/
def joinAt (map : BTreeMap K V) (entry : K × V) : BTreeMap K V :=
  map.insert entry.1 (max ((map[entry.1]?).getD ⊥) entry.2)

def joinAll (entries : List (K × V)) : BTreeMap K V := entries.foldl joinAt ∅

variable [LawfulEqOrd K] [DecidableEq K]

theorem getD_joinAt (map : BTreeMap K V) (entry : K × V) (key : K) :
    ((map.joinAt entry)[key]?).getD ⊥ =
      if entry.1 = key then max ((map[key]?).getD ⊥) entry.2 else (map[key]?).getD ⊥ := by
  rw [joinAt, lookup_insert]
  by_cases hkey : entry.1 = key
  · simp [hkey]
  · simp [hkey]

theorem isGreatest_foldl_joinAt (entries : List (K × V)) (map : BTreeMap K V) (key : K) :
    IsGreatest (insert ((map[key]?).getD ⊥) {value | (key, value) ∈ entries})
      (((entries.foldl joinAt map)[key]?).getD ⊥) := by
  induction entries generalizing map with
  | nil => simp
  | cons entry entries ih =>
      have htail := ih (map.joinAt entry)
      rw [List.foldl_cons]
      rw [getD_joinAt] at htail
      generalize ((entries.foldl joinAt (map.joinAt entry))[key]?).getD ⊥ = greatest at htail
      obtain ⟨first, value⟩ := entry
      by_cases hkey : first = key
      · subst hkey
        simp only [if_true] at htail
        have hupper := htail.2
        refine ⟨?_, ?_⟩
        · rcases htail.1 with hmax | hlater
          · rcases max_choice ((map[first]?).getD ⊥) value with hold | hnew
            · exact .inl (hmax.trans hold)
            · refine .inr ?_
              rw [hmax, hnew]
              exact List.mem_cons_self
          · exact .inr (List.mem_cons_of_mem _ hlater)
        · rintro other (hold | hmem)
          · rw [hold]
            exact (le_max_left _ _).trans (hupper (Set.mem_insert _ _))
          · rcases List.mem_cons.mp hmem with heq | hlater
            · rw [(Prod.mk.inj heq).2]
              exact (le_max_right _ _).trans (hupper (Set.mem_insert _ _))
            · exact hupper (.inr hlater)
      · have hentries : {other | (key, other) ∈ (first, value) :: entries} =
            {other | (key, other) ∈ entries} := by
          ext other
          simp [Ne.symm hkey]
        rw [hentries]
        simpa [hkey] using htail

/-- A key reads as the greatest of its values, and as the bottom with none. -/
theorem isGreatest_joinAll (entries : List (K × V)) (key : K) :
    IsGreatest (insert ⊥ {value | (key, value) ∈ entries})
      (((joinAll entries)[key]?).getD ⊥) := by
  simpa [joinAll] using isGreatest_foldl_joinAt entries ∅ key

end Join

section SortedPairs

variable {V : Type}

theorem lookup_eq_some_iff_mem {pairs : List (Nat × V)}
    (hsorted : pairs.Pairwise fun left right => left.1 < right.1) (key : Nat) (value : V) :
    pairs.lookup key = some value ↔ (key, value) ∈ pairs := by
  induction pairs with
  | nil => simp
  | cons pair pairs ih =>
      obtain ⟨hhead, htail⟩ := List.pairwise_cons.mp hsorted
      obtain ⟨first, held⟩ := pair
      rw [List.lookup_cons, List.mem_cons, Prod.mk.injEq]
      by_cases heq : key = first
      · subst heq
        have hlater : (key, value) ∉ pairs := fun hmem =>
          Nat.lt_irrefl key (hhead (key, value) hmem)
        simp [hlater, eq_comm]
      · have hkey : (key == first) = false := by simpa using heq
        rw [hkey, ih htail]
        simp [heq]

theorem mem_takeWhile_iff {pairs : List (Nat × V)} {test : Nat × V → Bool}
    (hsorted : pairs.Pairwise fun left right => left.1 < right.1) (pair : Nat × V) :
    pair ∈ pairs.takeWhile test ↔
      pair ∈ pairs ∧ ∀ earlier ∈ pairs, earlier.1 ≤ pair.1 → test earlier = true := by
  induction pairs with
  | nil => simp
  | cons first pairs ih =>
      obtain ⟨hhead, htail⟩ := List.pairwise_cons.mp hsorted
      by_cases htest : test first = true
      · rw [List.takeWhile_cons_of_pos htest, List.mem_cons, List.mem_cons, ih htail]
        constructor
        · rintro (rfl | ⟨hmem, hearlier⟩)
          · refine ⟨.inl rfl, fun earlier hmem hle => ?_⟩
            rcases List.mem_cons.mp hmem with rfl | hlater
            · exact htest
            · exact absurd (hhead earlier hlater) (Nat.not_lt.mpr hle)
          · refine ⟨.inr hmem, fun earlier hin hle => ?_⟩
            rcases List.mem_cons.mp hin with rfl | hlater
            · exact htest
            · exact hearlier earlier hlater hle
        · rintro ⟨rfl | hmem, hearlier⟩
          · exact .inl rfl
          · exact .inr ⟨hmem, fun earlier hin hle =>
              hearlier earlier (List.mem_cons_of_mem _ hin) hle⟩
      · rw [List.takeWhile_cons_of_neg htest]
        simp only [List.not_mem_nil, false_iff, not_and]
        intro hmem hearlier
        apply htest
        apply hearlier first List.mem_cons_self
        rcases List.mem_cons.mp hmem with rfl | hlater
        · exact le_rfl
        · exact Nat.le_of_lt (hhead pair hlater)

theorem mem_take_iff {α : Type} {key : α → Nat} {items : List α}
    (hsorted : items.Pairwise fun left right => key left < key right) (item : α) (taken : Nat) :
    item ∈ items.take taken ↔
      item ∈ items ∧ (items.countP fun other => key other < key item) < taken := by
  induction items generalizing taken with
  | nil => simp
  | cons first items ih =>
      obtain ⟨hhead, htail⟩ := List.pairwise_cons.mp hsorted
      cases taken with
      | zero => simp
      | succ taken =>
          rw [List.take_succ_cons, List.mem_cons, List.mem_cons, ih htail, List.countP_cons]
          by_cases hfirst : item = first
          · have hnone : (items.countP fun other => key other < key first) = 0 := by
              rw [List.countP_eq_zero]
              intro other hother
              simpa using Nat.le_of_lt (hhead other hother)
            simp [hfirst, hnone]
          · have hless : item ∈ items → key first < key item := hhead item
            simp only [hfirst, false_or]
            refine and_congr_right fun hmem => ?_
            simp [hless hmem]

end SortedPairs

section OverRange

variable {V : Type} (value : Nat → Option V) (bound : Nat)

theorem sorted_over_range :
    ((List.range bound).filterMap fun key => (value key).map (Prod.mk key)).Pairwise
      fun left right => left.1 < right.1 := by
  rw [List.pairwise_filterMap]
  refine List.pairwise_lt_range.imp ?_
  intro left right hlt first hfirst second hsecond
  obtain ⟨_, -, rfl⟩ := Option.map_eq_some_iff.mp hfirst
  obtain ⟨_, -, rfl⟩ := Option.map_eq_some_iff.mp hsecond
  exact hlt

theorem mem_over_range (key : Nat) (held : V) :
    (key, held) ∈ ((List.range bound).filterMap fun key => (value key).map (Prod.mk key)) ↔
      key < bound ∧ value key = some held := by
  rw [List.mem_filterMap]
  constructor
  · rintro ⟨other, hrange, hvalue⟩
    obtain ⟨_, hvalue, heq⟩ := Option.map_eq_some_iff.mp hvalue
    cases heq
    exact ⟨List.mem_range.mp hrange, hvalue⟩
  · rintro ⟨hrange, hvalue⟩
    exact ⟨key, List.mem_range.mpr hrange, by rw [hvalue]; rfl⟩

end OverRange

section NatKeys

variable {V : Type}

theorem toList_sorted (map : BTreeMap Nat V) :
    map.toList.Pairwise (fun left right => left.1 < right.1) := by
  refine (ExtTreeMap.ordered_keys_toList (t := map)).imp ?_
  intro left right hlt
  exact Nat.compare_eq_lt.mp hlt

theorem mem_toList (map : BTreeMap Nat V) (key : Nat) (value : V) :
    (key, value) ∈ map.toList ↔ map[key]? = some value :=
  ExtTreeMap.mem_toList_iff_getElem?_eq_some

theorem values_eq_range (map : BTreeMap Nat V) {bound : Nat}
    (hbound : ∀ key value, map[key]? = some value → key < bound) :
    map.toList.map Prod.snd = (List.range bound).filterMap fun key => map[key]? := by
  have hpairs : map.toList =
      (List.range bound).filterMap fun key => (map[key]?).map (Prod.mk key) := by
    have hirrefl : Std.Irrefl fun left right : Nat × V => left.1 < right.1 :=
      ⟨fun pair => Nat.lt_irrefl pair.1⟩
    have hasymm : Std.Asymm fun left right : Nat × V => left.1 < right.1 :=
      ⟨fun _ _ => Nat.lt_asymm⟩
    refine (toList_sorted map).eq_of_mem_iff (sorted_over_range _ _) ?_
    rintro ⟨key, value⟩
    rw [mem_toList, mem_over_range]
    exact ⟨fun hlookup => ⟨hbound key value hlookup, hlookup⟩, And.right⟩
  rw [hpairs, List.map_filterMap]
  refine List.filterMap_congr fun key _ => ?_
  cases map[key]? <;> rfl

theorem countP_below (map : BTreeMap Nat V) (test : Nat × V → Bool) (bound : Nat) :
    ((map.toList.filter test).countP fun pair => pair.1 < bound) =
      Nat.count (fun key => ((map[key]?).any fun value => test (key, value)) = true) bound := by
  have hmem : ∀ key, key ∈ ((map.toList.filter test).filter fun pair => pair.1 < bound).map
      Prod.fst ↔ key ∈ (List.range bound).filter fun key =>
        (map[key]?).any fun value => test (key, value) := by
    intro key
    simp only [List.mem_map, List.mem_filter, Prod.exists, mem_toList, decide_eq_true_eq,
      exists_and_right, exists_eq_right, List.mem_range, Option.any_eq_true]
    tauto
  have hnodup : (((map.toList.filter test).filter fun pair => pair.1 < bound).map
      Prod.fst).Nodup :=
    ((List.filter_sublist.trans List.filter_sublist).map _).nodup (keys_nodup map)
  have hperm := (List.perm_ext_iff_of_nodup hnodup (List.nodup_range.filter _)).mpr hmem
  rw [Nat.count, List.countP_eq_length_filter, List.countP_eq_length_filter,
    ← List.length_map Prod.fst, hperm.length_eq]
  simp

theorem count_values [DecidableEq V] (map : BTreeMap Nat V) {bound : Nat}
    (hbound : ∀ key value, map[key]? = some value → key < bound) (value : V) :
    (map.toList.map Prod.snd).count value =
      Nat.count (fun key => map[key]? = some value) bound := by
  rw [values_eq_range map hbound, List.count_eq_countP, List.countP_filterMap, Nat.count]
  refine List.countP_congr fun key _ => ?_
  cases map[key]? <;> simp

end NatKeys

end BTreeMap

namespace BTreeSet

variable {K : Type} [Ord K] [TransOrd K] [LawfulEqOrd K]

def collect (keys : List K) : BTreeSet K := ExtTreeSet.ofList keys compare

@[simp] theorem mem_collect (keys : List K) (key : K) : key ∈ collect keys ↔ key ∈ keys := by
  classical
  rw [collect, ExtTreeSet.mem_ofList]
  simp

theorem collect_perm {keys others : List K} (hperm : keys.Perm others) :
    collect keys = collect others :=
  ExtTreeSet.ext_mem fun key => by rw [mem_collect, mem_collect, hperm.mem_iff]

end BTreeSet

end VllmColdstartOperator.Foundation
