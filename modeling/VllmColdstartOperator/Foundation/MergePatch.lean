import Mathlib.Data.List.Basic
import Mathlib.Tactic.Tauto

/-!
# JSON merge patch

JSON trees over any scalars, and the merge of a patch into one: a null member
deletes its key, an object is merged member by member, and any other value
replaces what was there.  A path reads the tree, and a patch leaves every path
it does not touch.
-/

namespace VllmColdstartOperator.Foundation

inductive Json (Scalar : Type) where
  | null
  | scalar (value : Scalar)
  | array (items : List (Json Scalar))
  | object (members : List (String × Json Scalar))

namespace Json

variable {Scalar : Type}

def members : Json Scalar → List (String × Json Scalar)
  | .object members => members
  | _ => []

def isNull : Json Scalar → Bool
  | .null => true
  | _ => false

/-! ## Members -/

def lookup (key : String) (members : List (String × Json Scalar)) : Option (Json Scalar) :=
  (members.find? fun member => member.1 = key).map Prod.snd

def eraseMember (key : String) (members : List (String × Json Scalar)) :
    List (String × Json Scalar) :=
  members.filter fun member => member.1 ≠ key

def setMember (key : String) (value : Json Scalar) (members : List (String × Json Scalar)) :
    List (String × Json Scalar) :=
  (key, value) :: eraseMember key members

theorem lookup_eraseMember (key other : String) (members : List (String × Json Scalar)) :
    lookup other (eraseMember key members) =
      if key = other then none else lookup other members := by
  induction members with
  | nil => simp [lookup, eraseMember]
  | cons member members ih =>
      simp only [lookup, eraseMember, List.filter_cons, List.find?_cons] at ih ⊢
      grind

theorem lookup_setMember (key other : String) (value : Json Scalar)
    (members : List (String × Json Scalar)) :
    lookup other (setMember key value members) =
      if key = other then some value else lookup other members := by
  by_cases hkey : key = other
  · simp [lookup, setMember, hkey]
  · have herased := lookup_eraseMember key other members
    rw [if_neg hkey] at herased ⊢
    rw [← herased]
    simp [lookup, setMember, hkey]

/-! ## The merge -/

mutual

def mergePatch (target : Json Scalar) : Json Scalar → Json Scalar
  | .object patch => .object (mergeMembers target.members patch)
  | .null => .null
  | .scalar value => .scalar value
  | .array items => .array items

def mergeMembers (members : List (String × Json Scalar)) :
    List (String × Json Scalar) → List (String × Json Scalar)
  | [] => members
  | (key, value) :: patch =>
      mergeMembers
        (if value.isNull then eraseMember key members
        else setMember key (mergePatch ((lookup key members).getD .null) value) members)
        patch

end

/-! ## Paths -/

def at? : List String → Json Scalar → Option (Json Scalar)
  | [], json => some json
  | key :: path, json => (lookup key json.members).bind (at? path)

/-- The patch may change what stands at the path. -/
def touches : List String → Json Scalar → Bool
  | key :: path, .object patch =>
      patch.any fun member => member.1 = key && touches path member.2
  | _, _ => true

theorem at?_object (key : String) (path : List String) (members : List (String × Json Scalar)) :
    at? (key :: path) (.object members) = (lookup key members).bind (at? path) := rfl

theorem at?_getD {path : List String} (hpath : path ≠ []) (found : Option (Json Scalar)) :
    at? path (found.getD .null) = found.bind (at? path) := by
  cases path with
  | nil => exact absurd rfl hpath
  | cons key path =>
      cases found with
      | none => simp [at?, members, lookup]
      | some json => rfl

theorem at?_getD_congr {path : List String} {found other : Option (Json Scalar)}
    (hsame : found.bind (at? path) = other.bind (at? path)) :
    at? path (found.getD .null) = at? path (other.getD .null) := by
  cases path with
  | nil =>
      simp only [at?, Option.bind_fun_some] at hsame
      rw [hsame]
  | cons key path =>
      rw [at?_getD (List.cons_ne_nil key path), hsame, at?_getD (List.cons_ne_nil key path)]

theorem touches_eq_false {path : List String} {patch : Json Scalar}
    (hfree : touches path patch = false) : path ≠ [] ∧ patch.isNull = false := by
  cases path with
  | nil => simp [touches] at hfree
  | cons key path =>
      cases patch with
      | object patch => simp [isNull]
      | null => simp [touches] at hfree
      | scalar value => simp [touches] at hfree
      | array items => simp [touches] at hfree

theorem lookup_mergeMembers_cons (key other : String) (value : Json Scalar)
    (members patch : List (String × Json Scalar)) :
    ∃ merged, mergeMembers members ((key, value) :: patch) = mergeMembers merged patch ∧
      lookup other merged =
        if key = other then
          if value.isNull then none
          else some (mergePatch ((lookup other members).getD .null) value)
        else lookup other members := by
  refine ⟨_, by rw [mergeMembers], ?_⟩
  by_cases hnull : value.isNull
  · rw [if_pos hnull, lookup_eraseMember, if_pos hnull]
  · rw [if_neg hnull, lookup_setMember, if_neg hnull]
    split
    next hkey => rw [hkey]
    next => rfl

/-- A patch leaves every path it does not touch. -/
theorem at?_mergePatch_of_free {path : List String} {patch : Json Scalar}
    (hfree : touches path patch = false) (target : Json Scalar) :
    at? path (mergePatch target patch) = at? path target := by
  induction path generalizing target patch with
  | nil => simp [touches] at hfree
  | cons key path ih =>
      cases patch with
      | null => simp [touches] at hfree
      | scalar value => simp [touches] at hfree
      | array items => simp [touches] at hfree
      | object patch =>
          rw [mergePatch, at?_object, at?]
          generalize target.members = members
          induction patch generalizing members with
          | nil => rw [mergeMembers]
          | cons member patch ihPatch =>
              simp only [touches, List.any_cons, Bool.or_eq_false_iff, Bool.and_eq_false_iff,
                decide_eq_false_iff_not] at hfree ihPatch
              obtain ⟨merged, hmerged, hlookup⟩ :=
                lookup_mergeMembers_cons member.1 key member.2 members patch
              rw [hmerged, ihPatch hfree.2 merged, hlookup]
              split
              next hkey =>
                have hinside := hfree.1.resolve_left (absurd hkey)
                obtain ⟨hpath, hnull⟩ := touches_eq_false hinside
                rw [hnull, if_neg Bool.false_ne_true, Option.bind_some, ih hinside, at?_getD hpath]
              next => rfl

theorem at?_mergePatch_congr {path : List String} {target other : Json Scalar}
    (hsame : at? path target = at? path other) (patch : Json Scalar) :
    at? path (mergePatch target patch) = at? path (mergePatch other patch) := by
  induction path generalizing target other patch with
  | nil =>
      simp only [at?, Option.some.injEq] at hsame
      rw [hsame]
  | cons key path ih =>
      cases patch with
      | null => rw [mergePatch, mergePatch]
      | scalar value => rw [mergePatch, mergePatch]
      | array items => rw [mergePatch, mergePatch]
      | object patch =>
          rw [mergePatch, mergePatch, at?_object, at?_object]
          rw [at?, at?] at hsame
          generalize target.members = members, other.members = others at hsame
          induction patch generalizing members others with
          | nil => rwa [mergeMembers, mergeMembers]
          | cons member patch ihPatch =>
              obtain ⟨merged, hmerged, hlookup⟩ :=
                lookup_mergeMembers_cons member.1 key member.2 members patch
              obtain ⟨mergedOther, hmergedOther, hlookupOther⟩ :=
                lookup_mergeMembers_cons member.1 key member.2 others patch
              rw [hmerged, hmergedOther]
              refine ihPatch merged mergedOther ?_
              rw [hlookup, hlookupOther]
              split
              · split
                · rfl
                · rw [Option.bind_some, Option.bind_some]
                  exact ih (at?_getD_congr hsame) member.2
              · exact hsame

/-! ## What a patch writes -/

theorem lookup_eq_none {key : String} {members : List (String × Json Scalar)}
    (habsent : key ∉ members.map Prod.fst) : lookup key members = none := by
  rw [lookup, Option.map_eq_none_iff, List.find?_eq_none]
  intro member hmem
  simpa using fun heq => habsent (List.mem_map.mpr ⟨member, hmem, heq⟩)

theorem lookup_eq_some {key : String} {value : Json Scalar}
    {members : List (String × Json Scalar)} (hnodup : (members.map Prod.fst).Nodup)
    (hmem : (key, value) ∈ members) : lookup key members = some value := by
  induction members with
  | nil => cases hmem
  | cons member members ih =>
      rw [List.map_cons, List.nodup_cons] at hnodup
      by_cases hkey : member.1 = key
      · rcases List.mem_cons.mp hmem with rfl | hlater
        · simp [lookup]
        · exact absurd (List.mem_map.mpr ⟨(key, value), hlater, hkey.symm⟩) hnodup.1
      · have hlater : (key, value) ∈ members := by
          rcases List.mem_cons.mp hmem with rfl | hlater
          · exact absurd rfl hkey
          · exact hlater
        simpa [lookup, hkey] using ih hnodup.2 hlater

def present (fields : List (String × Option (Json Scalar))) : List (String × Json Scalar) :=
  fields.filterMap fun field => field.2.map fun value => (field.1, value)

theorem mem_present_keys {key : String} {fields : List (String × Option (Json Scalar))}
    (hmem : key ∈ (present fields).map Prod.fst) : key ∈ fields.map Prod.fst := by
  simp only [present, List.map_filterMap, List.mem_filterMap, Option.map_map,
    Option.map_eq_some_iff] at hmem
  obtain ⟨field, hfield, value, -, rfl⟩ := hmem
  exact List.mem_map_of_mem hfield

theorem lookup_present {key : String} {found : Option (Json Scalar)}
    {fields : List (String × Option (Json Scalar))} (hnodup : (fields.map Prod.fst).Nodup)
    (hmem : (key, found) ∈ fields) : lookup key (present fields) = found := by
  induction fields with
  | nil => cases hmem
  | cons field fields ih =>
      rw [List.map_cons, List.nodup_cons] at hnodup
      rcases List.mem_cons.mp hmem with rfl | hlater
      · cases found with
        | none => exact lookup_eq_none fun hlater => hnodup.1 (mem_present_keys hlater)
        | some value => simp [present, lookup]
      · have hkey : field.1 ≠ key := fun heq =>
          hnodup.1 (List.mem_map.mpr ⟨(key, found), hlater, heq.symm⟩)
        rw [← ih hnodup.2 hlater]
        cases hfield : field.2 with
        | none => simp [present, hfield]
        | some value => simp [present, lookup, hfield, hkey]

theorem lookup_mergeMembers {patch : List (String × Json Scalar)}
    (hnodup : (patch.map Prod.fst).Nodup) (key : String) (members : List (String × Json Scalar)) :
    lookup key (mergeMembers members patch) =
      match lookup key patch with
      | none => lookup key members
      | some value =>
          if value.isNull then none
          else some (mergePatch ((lookup key members).getD .null) value) := by
  induction patch generalizing members with
  | nil => simp [mergeMembers, lookup]
  | cons member patch ih =>
      rw [List.map_cons, List.nodup_cons] at hnodup
      obtain ⟨merged, hmerged, hlookup⟩ :=
        lookup_mergeMembers_cons member.1 key member.2 members patch
      rw [hmerged, ih hnodup.2 merged, hlookup]
      by_cases hkey : member.1 = key
      · rw [lookup_eq_none (hkey ▸ hnodup.1)]
        simp [lookup, hkey]
      · simp [lookup, hkey]

theorem at?_mergePatch_nested (key : String) (path : List String) (target : Json Scalar)
    (patch : List (String × Json Scalar)) :
    at? (key :: path) (mergePatch target (.object [(key, .object patch)])) =
      at? path (mergePatch ((lookup key target.members).getD .null) (.object patch)) := by
  rw [mergePatch, at?_object, lookup_mergeMembers (by simp)]
  simp [lookup, isNull]

/-! ## Writers that share no path -/

section Writers

variable {Write : Type} (patch : Write → Json Scalar)

def mergeAll (target : Json Scalar) (writes : List Write) : Json Scalar :=
  writes.foldl (fun json write => mergePatch json (patch write)) target

/-- In any order of writes, those that do not touch a path may be left out. -/
theorem at?_mergeAll_filter {path : List String} (mine : Write → Bool)
    (hfree : ∀ write, mine write = false → touches path (patch write) = false)
    (writes : List Write) {target other : Json Scalar} (hsame : at? path target = at? path other) :
    at? path (mergeAll patch target writes) =
      at? path (mergeAll patch other (writes.filter mine)) := by
  induction writes generalizing target other with
  | nil => exact hsame
  | cons write writes ih =>
      cases hmine : mine write with
      | true =>
          rw [List.filter_cons_of_pos hmine]
          exact ih (at?_mergePatch_congr hsame (patch write))
      | false =>
          rw [List.filter_cons_of_neg (by simp [hmine])]
          refine ih ?_
          rw [at?_mergePatch_of_free (hfree write hmine), hsame]

end Writers

end Json

end VllmColdstartOperator.Foundation
