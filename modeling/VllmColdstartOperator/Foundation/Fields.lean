import VllmColdstartOperator.Foundation.MergePatch

/-!
# Records as objects

A record is read off what stands at its keys: a required field must stand there,
a defaulted one may be absent, an optional one may also be null.  A list is read
item by item.  After a merge each key of the patch reads as the patch has it and
each other key as before.
-/

namespace VllmColdstartOperator.Foundation.Json

variable {Scalar α : Type}

/-! ## Reading -/

section Read

variable (read : Json Scalar → Option α)

def required (found : Option (Json Scalar)) : Option α := found.bind read

def defaulted (default : α) : Option (Json Scalar) → Option α
  | none => some default
  | some json => read json

def optional : Option (Json Scalar) → Option (Option α)
  | none => some none
  | some json => if json.isNull then some none else (read json).map some

def readItems : Json Scalar → Option (List α)
  | .array items => items.mapM read
  | _ => none

@[simp] theorem required_some (json : Json Scalar) : required read (some json) = read json := rfl

@[simp] theorem defaulted_none (default : α) : defaulted read default none = some default := rfl

@[simp] theorem defaulted_some (default : α) (json : Json Scalar) :
    defaulted read default (some json) = read json := rfl

@[simp] theorem optional_none : optional read none = some none := rfl

@[simp] theorem optional_null : optional read (some .null) = some none := rfl

@[simp] theorem optional_scalar (value : Scalar) :
    optional read (some (.scalar value)) = (read (.scalar value)).map some := rfl

@[simp] theorem optional_object (members : List (String × Json Scalar)) :
    optional read (some (.object members)) = (read (.object members)).map some := rfl

variable {read}

theorem optional_map {write : α → Scalar} {found : Option α}
    (hwrite : ∀ value, found = some value → read (.scalar (write value)) = some value) :
    optional read (found.map fun value => .scalar (write value)) = some found := by
  cases found with
  | none => rfl
  | some value => simp [hwrite value rfl]

theorem read_members_of_optional {empty : α}
    (hobject : ∀ json value, read json = some value → json = .object json.members)
    (hempty : read (.object []) = some empty) {found : Option (Json Scalar)} {value : Option α}
    (hfound : optional read found = some value) :
    read (.object (found.getD .null).members) = some (value.getD empty) := by
  cases found with
  | none =>
      cases hfound
      exact hempty
  | some json =>
      cases hnull : json.isNull with
      | true =>
          cases json with
          | null =>
              cases hfound
              exact hempty
          | scalar value => cases hnull
          | array items => cases hnull
          | object members => cases hnull
      | false =>
          rw [optional, hnull, if_neg Bool.false_ne_true] at hfound
          obtain ⟨record, hrecord, rfl⟩ := Option.map_eq_some_iff.mp hfound
          rw [Option.getD_some, ← hobject json record hrecord]
          exact hrecord

theorem readItems_map {write : α → Json Scalar} {normal : α → α}
    (hwrite : ∀ value, read (write value) = some (normal value)) (values : List α) :
    readItems read (.array (values.map write)) = some (values.map normal) := by
  simp only [readItems]
  induction values with
  | nil => rfl
  | cons value values ih => simp [hwrite, ih]

end Read

/-! ## Reading a merge -/

section Merge

variable {patch members : List (String × Json Scalar)} {key : String}

def isLeaf : Json Scalar → Bool
  | .scalar _ => true
  | .array _ => true
  | _ => false

theorem lookup_merged_leaf (hnodup : (patch.map Prod.fst).Nodup) {value : Json Scalar}
    (hmem : (key, value) ∈ patch) (hleaf : value.isLeaf = true) :
    lookup key (mergeMembers members patch) = some value := by
  rw [lookup_mergeMembers hnodup, lookup_eq_some hnodup hmem]
  cases value with
  | null => cases hleaf
  | object members => cases hleaf
  | scalar value => simp [isNull, mergePatch]
  | array items => simp [isNull, mergePatch]

theorem lookup_merged_object (hnodup : (patch.map Prod.fst).Nodup)
    {inner : List (String × Json Scalar)} (hmem : (key, .object inner) ∈ patch) :
    lookup key (mergeMembers members patch) =
      some (.object (mergeMembers ((lookup key members).getD .null).members inner)) := by
  rw [lookup_mergeMembers hnodup, lookup_eq_some hnodup hmem]
  simp [isNull, mergePatch]

theorem lookup_merged_absent (hnodup : (patch.map Prod.fst).Nodup)
    (habsent : key ∉ patch.map Prod.fst) :
    lookup key (mergeMembers members patch) = lookup key members := by
  rw [lookup_mergeMembers hnodup, lookup_eq_none habsent]

end Merge

end VllmColdstartOperator.Foundation.Json
