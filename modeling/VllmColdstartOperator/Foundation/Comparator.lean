import Mathlib

/-!
# Comparators and the last maximum of a list

A comparator is a three-way comparison.  `presentAbove` lifts one to optional
values, an absent value below every present one, and `maxBy` is the maximum a
left-to-right scan returns when a later element wins every tie.  The scan
returns a maximal element whenever the comparator is a total preorder.
-/

namespace VllmColdstartOperator.Foundation

open Std

section Present

variable {α : Type}

def presentAbove (cmp : α → α → Ordering) : Option α → Option α → Ordering
  | none, none => .eq
  | none, some _ => .lt
  | some _, none => .gt
  | some left, some right => cmp left right

instance presentAbove_oriented (cmp : α → α → Ordering) [OrientedCmp cmp] :
    OrientedCmp (presentAbove cmp) where
  eq_swap := by
    intro left right
    cases left with
    | none => cases right <;> rfl
    | some left =>
        cases right with
        | none => rfl
        | some right => exact @OrientedCmp.eq_swap _ cmp _ left right

instance presentAbove_trans (cmp : α → α → Ordering) [TransCmp cmp] :
    TransCmp (presentAbove cmp) where
  isLE_trans := by
    intro left middle right hleft hright
    cases left with
    | none => cases right <;> rfl
    | some left =>
        cases middle with
        | none => exact absurd hleft (by simp [presentAbove])
        | some middle =>
            cases right with
            | none => exact absurd hright (by simp [presentAbove])
            | some right => exact @TransCmp.isLE_trans _ cmp _ _ _ _ hleft hright

theorem presentAbove_isLE_iff {cmp : α → α → Ordering} {left right : Option α} :
    (presentAbove cmp left right).isLE = true ↔
      ∀ value, left = some value → ∃ other, right = some other ∧ (cmp value other).isLE = true := by
  cases left with
  | none => cases right <;> simp [presentAbove]
  | some left => cases right <;> simp [presentAbove]

theorem presentAbove_eq_iff {cmp : α → α → Ordering}
    (hcmp : ∀ left right, cmp left right = .eq ↔ left = right) {left right : Option α} :
    presentAbove cmp left right = .eq ↔ left = right := by
  cases left with
  | none => cases right <;> simp [presentAbove]
  | some left => cases right <;> simp [presentAbove, hcmp]

end Present

theorem isLE_then_iff {first second : Ordering} :
    (first.then second).isLE = true ↔
      first.isLE = true ∧ (first = .eq → second.isLE = true) := by
  cases first <;> simp

theorem trans_on {α β : Type} (cmp : β → β → Ordering) [TransCmp cmp] (key : α → β) :
    TransCmp fun left right => cmp (key left) (key right) where
  eq_swap := OrientedCmp.eq_swap
  isLE_trans := TransCmp.isLE_trans

section MaxBy

variable {α : Type} (cmp : α → α → Ordering)

def maxBy : List α → Option α
  | [] => none
  | first :: rest =>
      some (rest.foldl (fun best next => if cmp best next = .gt then best else next) first)

@[simp] theorem maxBy_nil : maxBy cmp [] = none := rfl

theorem maxBy_isSome {candidates : List α} (hne : candidates ≠ []) :
    ∃ best, maxBy cmp candidates = some best := by
  cases candidates with
  | nil => exact absurd rfl hne
  | cons first rest => exact ⟨_, rfl⟩

private theorem foldl_later_mem (rest : List α) (first : α) :
    rest.foldl (fun best next => if cmp best next = .gt then best else next) first ∈
      first :: rest := by
  induction rest generalizing first with
  | nil => simp
  | cons next rest ih =>
      rw [List.foldl_cons]
      rcases List.mem_cons.mp (ih (if cmp first next = .gt then first else next)) with
        hhead | htail
      · rw [hhead]
        split <;> simp
      · exact List.mem_cons_of_mem _ (List.mem_cons_of_mem _ htail)

theorem maxBy_mem {candidates : List α} {best : α}
    (hbest : maxBy cmp candidates = some best) : best ∈ candidates := by
  cases candidates with
  | nil => simp at hbest
  | cons first rest =>
      rw [maxBy, Option.some.injEq] at hbest
      rw [← hbest]
      exact foldl_later_mem cmp rest first

variable [TransCmp cmp]

private theorem foldl_later_isMax (rest : List α) (first : α) :
    ∀ other ∈ first :: rest, (cmp other
      (rest.foldl (fun best next => if cmp best next = .gt then best else next) first)).isLE := by
  induction rest generalizing first with
  | nil =>
      intro other hother
      rw [List.mem_singleton.mp hother]
      exact ReflCmp.isLE_rfl
  | cons next rest ih =>
      intro other hother
      rw [List.foldl_cons]
      have hkept := ih (if cmp first next = .gt then first else next)
      have hstep : ∀ contender ∈ [first, next],
          (cmp contender (if cmp first next = .gt then first else next)).isLE := by
        intro contender hcontender
        split
        · next hgt =>
            have hnext : (cmp next first).isLE := by
              rw [@OrientedCmp.eq_swap _ cmp, hgt]
              rfl
            rcases List.mem_pair.mp hcontender with rfl | rfl
            · exact ReflCmp.isLE_rfl
            · exact hnext
        · next hle =>
            have hfirst : (cmp first next).isLE := by
              cases hcmp : cmp first next with
              | lt => rfl
              | eq => rfl
              | gt => exact absurd hcmp hle
            rcases List.mem_pair.mp hcontender with rfl | rfl
            · exact hfirst
            · exact ReflCmp.isLE_rfl
      by_cases htail : other ∈ rest
      · exact hkept other (List.mem_cons_of_mem _ htail)
      · have hpair : other ∈ [first, next] := by
          simp only [List.mem_cons, htail, or_false] at hother
          simpa using hother
        exact TransCmp.isLE_trans (hstep other hpair) (hkept _ List.mem_cons_self)

theorem maxBy_isMax {candidates : List α} {best : α}
    (hbest : maxBy cmp candidates = some best) :
    ∀ other ∈ candidates, (cmp other best).isLE := by
  cases candidates with
  | nil => simp at hbest
  | cons first rest =>
      rw [maxBy, Option.some.injEq] at hbest
      rw [← hbest]
      exact foldl_later_isMax cmp rest first

private theorem foldl_later_split {rest : List α} {first best : α}
    (hbest : rest.foldl (fun best next => if cmp best next = .gt then best else next) first =
      best) :
    ∃ before after, first :: rest = before ++ best :: after ∧
      (∀ other ∈ before, (cmp other best).isLE) ∧ ∀ other ∈ after, cmp best other = .gt := by
  induction rest generalizing first with
  | nil =>
      subst hbest
      exact ⟨[], [], rfl, by simp, by simp⟩
  | cons next rest ih =>
      rw [List.foldl_cons] at hbest
      obtain ⟨before, after, heq, hbefore, hafter⟩ := ih hbest
      by_cases hgt : cmp first next = .gt
      · rw [if_pos hgt] at heq
        have hnext : cmp next first = .lt := by
          rw [@OrientedCmp.eq_swap _ cmp, hgt]
          rfl
        cases before with
        | nil =>
            obtain ⟨rfl, rfl⟩ := List.cons.inj heq
            refine ⟨[], next :: rest, rfl, by simp, ?_⟩
            simpa [hgt] using hafter
        | cons head before =>
            obtain ⟨rfl, hrest⟩ := List.cons.inj heq
            have hfirst := hbefore first List.mem_cons_self
            refine ⟨first :: next :: before, after, congrArg _ (congrArg _ hrest), ?_, hafter⟩
            have hsecond : (cmp next best).isLE :=
              TransCmp.isLE_trans (by simp [hnext]) hfirst
            simp only [List.mem_cons, forall_eq_or_imp]
            exact ⟨hfirst, hsecond, fun other hother =>
              hbefore other (List.mem_cons_of_mem _ hother)⟩
      · rw [if_neg hgt] at heq hbest
        have hfirst : (cmp first next).isLE := by
          cases hcmp : cmp first next with
          | lt => rfl
          | eq => rfl
          | gt => exact absurd hcmp hgt
        have hnext := foldl_later_isMax cmp rest next next List.mem_cons_self
        rw [hbest] at hnext
        refine ⟨first :: before, after, congrArg _ heq, ?_, hafter⟩
        simp only [List.mem_cons, forall_eq_or_imp]
        exact ⟨TransCmp.isLE_trans hfirst hnext, hbefore⟩

omit [TransCmp cmp] in
private theorem foldl_later_stays {after : List α} {best : α}
    (hafter : ∀ other ∈ after, cmp best other = .gt) :
    after.foldl (fun best next => if cmp best next = .gt then best else next) best = best := by
  induction after with
  | nil => rfl
  | cons next after ih =>
      rw [List.foldl_cons, if_pos (hafter next List.mem_cons_self)]
      exact ih fun other hother => hafter other (List.mem_cons_of_mem _ hother)

theorem maxBy_filter {candidates : List α} {best : α} (keep : α → Bool)
    (hbest : maxBy cmp candidates = some best) (hkeep : keep best = true) :
    maxBy cmp (candidates.filter keep) = some best := by
  cases candidates with
  | nil => simp at hbest
  | cons first rest =>
      rw [maxBy, Option.some.injEq] at hbest
      obtain ⟨before, after, heq, hbefore, hafter⟩ := foldl_later_split cmp hbest
      have hkept : ∀ other ∈ before.filter keep, (cmp other best).isLE :=
        fun other hother => hbefore other (List.mem_filter.mp hother).1
      have hrest : ∀ other ∈ after.filter keep, cmp best other = .gt :=
        fun other hother => hafter other (List.mem_filter.mp hother).1
      rw [heq, List.filter_append, List.filter_cons_of_pos hkeep]
      cases hfilter : before.filter keep with
      | nil =>
          rw [List.nil_append, maxBy, Option.some.injEq]
          exact foldl_later_stays cmp hrest
      | cons head before =>
          rw [hfilter] at hkept
          have hle := hkept _ (foldl_later_mem cmp before head)
          rw [List.cons_append, maxBy, Option.some.injEq, List.foldl_append, List.foldl_cons,
            if_neg fun hgt => by simp [hgt] at hle]
          exact foldl_later_stays cmp hrest

theorem maxBy_of_filter {candidates : List α} {best : α} (keep : α → Bool)
    (hbest : maxBy cmp (candidates.filter keep) = some best)
    (hbelow : ∀ other ∈ candidates, keep other = false → cmp best other = .gt) :
    maxBy cmp candidates = some best := by
  have hkept := (List.mem_filter.mp (maxBy_mem cmp hbest)).2
  have hne : candidates ≠ [] := by
    rintro rfl
    cases hbest
  obtain ⟨winner, hwinner⟩ := maxBy_isSome cmp hne
  have hmem : best ∈ candidates := (List.mem_filter.mp (maxBy_mem cmp hbest)).1
  have hkeep : keep winner = true := by
    by_contra hdropped
    have hgt := hbelow winner (maxBy_mem cmp hwinner) (Bool.not_eq_true _ ▸ hdropped)
    have hle := maxBy_isMax cmp hwinner best hmem
    rw [hgt] at hle
    cases hle
  rw [hwinner, ← hbest, maxBy_filter cmp keep hwinner hkeep]

theorem maxBy_perm {candidates others : List α} (hperm : candidates.Perm others) {best other : α}
    (hbest : maxBy cmp candidates = some best) (hother : maxBy cmp others = some other) :
    cmp best other = .eq := by
  have hup := maxBy_isMax cmp hother best (hperm.mem_iff.mp (maxBy_mem cmp hbest))
  have hdown := maxBy_isMax cmp hbest other (hperm.mem_iff.mpr (maxBy_mem cmp hother))
  rw [@OrientedCmp.eq_swap _ cmp] at hdown
  cases hcmp : cmp best other with
  | lt => simp [hcmp] at hdown
  | eq => rfl
  | gt => simp [hcmp] at hup

/-- With no two elements level every order has the same winner. -/
theorem maxBy_perm_of_distinct {candidates others : List α} (hperm : candidates.Perm others)
    (hdistinct : candidates.Pairwise fun left right => cmp left right ≠ .eq) {best other : α}
    (hbest : maxBy cmp candidates = some best) (hother : maxBy cmp others = some other) :
    other = best := by
  have hsymm : Std.Symm fun left right : α => cmp left right ≠ .eq := ⟨fun left right hne heq => by
    rw [@OrientedCmp.eq_swap _ cmp, heq] at hne
    exact hne rfl⟩
  have hlevel := maxBy_perm cmp hperm hbest hother
  by_contra hne
  exact hdistinct.forall (maxBy_mem cmp hbest)
    (hperm.mem_iff.mpr (maxBy_mem cmp hother)) (Ne.symm hne) hlevel

theorem maxBy_map {β : Type} {cmp : α → α → Ordering} {cmp' : β → β → Ordering} {view : α → β}
    (hview : ∀ left right, cmp' (view left) (view right) = cmp left right)
    (candidates : List α) :
    maxBy cmp' (candidates.map view) = (maxBy cmp candidates).map view := by
  cases candidates with
  | nil => rfl
  | cons first rest =>
      rw [List.map_cons, maxBy, maxBy, Option.map_some, Option.some.injEq]
      induction rest generalizing first with
      | nil => rfl
      | cons next rest ih =>
          rw [List.map_cons, List.foldl_cons, List.foldl_cons, hview, ← apply_ite view]
          exact ih _

/-- Related lists have related maxima when the comparators cannot tell them apart. -/
theorem maxBy_related {β : Type} {Related : α → β → Prop} {cmp : α → α → Ordering}
    {cmp' : β → β → Ordering}
    (hcmp : ∀ left left' right right', Related left left' → Related right right' →
      cmp left right = cmp' left' right')
    {candidates : List α} {others : List β} (hrelated : List.Forall₂ Related candidates others) :
    Option.Rel Related (maxBy cmp candidates) (maxBy cmp' others) := by
  cases hrelated with
  | nil => exact .none
  | @cons first first' rest rest' hfirst hrest =>
      refine .some ?_
      induction hrest generalizing first first' with
      | nil => exact hfirst
      | @cons next next' rest rest' hnext hrest ih =>
          rw [List.foldl_cons, List.foldl_cons, hcmp _ _ _ _ hfirst hnext]
          split
          · exact ih hfirst
          · exact ih hnext

end MaxBy

section Sorting

variable {α : Type}

instance isLE_total (cmp : α → α → Ordering) [OrientedCmp cmp] :
    Std.Total fun left right => (cmp left right).isLE = true where
  total := by
    intro left right
    rw [@OrientedCmp.eq_swap _ cmp _ right left]
    cases cmp left right <;> simp

instance isLE_trans (cmp : α → α → Ordering) [TransCmp cmp] :
    IsTrans α fun left right => (cmp left right).isLE = true where
  trans := fun _ _ _ => TransCmp.isLE_trans

variable {relation : α → α → Prop} [DecidableRel relation]

theorem orderedInsert_of_first {value : α} {values : List α}
    (hfirst : ∀ other ∈ values, relation value other) :
    values.orderedInsert relation value = value :: values := by
  cases values with
  | nil => rfl
  | cons head tail =>
      exact List.orderedInsert_cons_of_le relation tail (hfirst _ List.mem_cons_self)

theorem filter_orderedInsert [IsTrans α relation] (keep : α → Bool) (value : α)
    {values : List α} (hsorted : values.Pairwise relation) :
    (values.orderedInsert relation value).filter keep =
      if keep value then (values.filter keep).orderedInsert relation value
      else values.filter keep := by
  induction values with
  | nil => cases hkeep : keep value <;> simp [hkeep]
  | cons head tail ih =>
      obtain ⟨hhead, htail⟩ := List.pairwise_cons.mp hsorted
      by_cases hle : relation value head
      · have hfirst : ∀ other ∈ (head :: tail).filter keep, relation value other := by
          intro other hother
          rcases List.mem_cons.mp (List.mem_filter.mp hother).1 with rfl | hlater
          · exact hle
          · exact IsTrans.trans _ _ _ hle (hhead other hlater)
        rw [List.orderedInsert_cons_of_le relation tail hle, orderedInsert_of_first hfirst]
        exact List.filter_cons
      · rw [List.orderedInsert_of_not_le relation tail hle, List.filter_cons, List.filter_cons,
          ih htail]
        cases hkeep : keep value with
        | false => simp
        | true =>
            cases keep head with
            | false => simp
            | true => simp [List.orderedInsert_of_not_le relation _ hle]

theorem filter_insertionSort [Std.Total relation] [IsTrans α relation] (keep : α → Bool)
    (values : List α) :
    (values.insertionSort relation).filter keep =
      (values.filter keep).insertionSort relation := by
  induction values with
  | nil => rfl
  | cons value values ih =>
      rw [List.insertionSort_cons, filter_orderedInsert keep value
        (List.pairwise_insertionSort relation values), ih, List.filter_cons]
      split
      · rfl
      · rfl

theorem insertionSort_perm {cmp : α → α → Ordering} [TransCmp cmp] {items others : List α}
    (hperm : items.Perm others)
    (hdistinct : items.Pairwise fun left right => cmp left right ≠ .eq) :
    items.insertionSort (fun left right => (cmp left right).isLE) =
      others.insertionSort fun left right => (cmp left right).isLE := by
  have hsorted := fun items : List α =>
    List.pairwise_insertionSort (fun left right => (cmp left right).isLE = true) items
  refine List.Perm.eq_of_pairwise (fun left right hleft hright hle hge => ?_) (hsorted items)
    (hsorted others) (((List.perm_insertionSort _ items).trans hperm).trans
      (List.perm_insertionSort _ others).symm)
  have hlevel : cmp left right = .eq := OrientedCmp.isLE_antisymm hle hge
  by_contra hne
  have hmem : left ∈ items ∧ right ∈ items := by
    rw [List.mem_insertionSort] at hleft hright
    exact ⟨hleft, hperm.mem_iff.mpr hright⟩
  have : Std.Symm fun left right => cmp left right ≠ .eq :=
    ⟨fun _ _ hne hsame => hne (OrientedCmp.eq_comm.mp hsame)⟩
  exact hdistinct.forall hmem.1 hmem.2 hne hlevel

end Sorting

end VllmColdstartOperator.Foundation
