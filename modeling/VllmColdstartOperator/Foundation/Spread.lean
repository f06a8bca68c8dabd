import Mathlib

/-!
# Picking the least loaded place

A sequence of picks spreads when each goes to a place that, with the earlier
picks counted, carries the least.  A batch of picks may be preceded by several
picks of one place that the batch does not know of; this file says exactly when
the whole sequence still spreads.
-/

namespace VllmColdstartOperator.Foundation

variable {α : Type} [DecidableEq α] {eligible : Finset α} {own : α → Nat}

def load (own : α → Nat) (picks : List α) (place : α) : Nat := own place + picks.count place

@[simp] theorem load_nil : load own [] = own := rfl

theorem load_replicate (times : Nat) (place other : α) :
    load own (List.replicate times place) other =
      own other + if other = place then times else 0 := by
  rw [load, List.count_replicate]
  by_cases heq : other = place
  · simp [heq]
  · simp [heq, Ne.symm heq]

theorem load_append (first second : List α) :
    load own (first ++ second) = load (load own first) second := by
  funext place
  simp only [load, List.count_append]
  omega

/-- Each pick is eligible, and no eligible place carries less at that moment. -/
def Spreads (eligible : Finset α) (own : α → Nat) (picks : List α) : Prop :=
  ∀ before pick after, picks = before ++ pick :: after →
    pick ∈ eligible ∧ ∀ other ∈ eligible, load own before pick ≤ load own before other

@[simp] theorem spreads_nil : Spreads eligible own [] := by
  intro before pick after heq
  simp at heq

theorem spreads_append (first second : List α) :
    Spreads eligible own (first ++ second) ↔
      Spreads eligible own first ∧ Spreads eligible (load own first) second := by
  constructor
  · intro hspreads
    constructor
    · intro before pick after heq
      apply hspreads before pick (after ++ second)
      simp [heq]
    · intro before pick after heq
      have hwhole := hspreads (first ++ before) pick after (by simp [heq])
      rwa [load_append] at hwhole
  · rintro ⟨hfirst, hsecond⟩ before pick after heq
    rcases List.append_eq_append_iff.mp heq with ⟨middle, rfl, htail⟩ | ⟨middle, rfl, htail⟩
    · have hpick := hsecond middle pick after htail
      rwa [← load_append] at hpick
    · cases middle with
      | nil =>
          have hpick := hsecond [] pick after (by simpa using htail.symm)
          simpa using hpick
      | cons head middle =>
          rw [List.cons_append, List.cons.injEq] at htail
          obtain ⟨rfl, -⟩ := htail
          exact hfirst before pick middle rfl

theorem spreads_singleton (pick : α) :
    Spreads eligible own [pick] ↔ pick ∈ eligible ∧ ∀ other ∈ eligible, own pick ≤ own other := by
  constructor
  · intro hspreads
    simpa using hspreads [] pick [] rfl
  · intro hpick before other after heq
    cases before with
    | nil =>
        obtain ⟨rfl, -⟩ : pick = other ∧ [] = after := by simpa using heq
        exact hpick
    | cons head before => simp at heq

theorem Spreads.mem {picks : List α} (hspreads : Spreads eligible own picks) {pick : α}
    (hmem : pick ∈ picks) : pick ∈ eligible := by
  obtain ⟨before, after, heq⟩ := List.append_of_mem hmem
  exact (hspreads before pick after heq).1

/-! ## One place picked several times -/

theorem spreads_replicate {place : α} (hplace : place ∈ eligible) (times : Nat) :
    Spreads eligible own (List.replicate times place) ↔
      times = 0 ∨ ∀ other ∈ eligible, other ≠ place → own place + times ≤ own other + 1 := by
  induction times with
  | zero => simp
  | succ times ih =>
      rw [List.replicate_succ', spreads_append, ih, spreads_singleton]
      simp only [load_replicate, if_true, hplace, true_and]
      constructor
      · rintro ⟨-, hleast⟩
        right
        intro other hother hne
        have hle := hleast other hother
        rw [if_neg hne] at hle
        omega
      · rintro (hzero | hroom)
        · omega
        · refine ⟨.inr fun other hother hne => ?_, fun other hother => ?_⟩
          · have := hroom other hother hne
            omega
          · by_cases heq : other = place
            · simp [heq]
            · have := hroom other hother heq
              rw [if_neg heq]
              omega

theorem spreads_after_extra {place : α} {picks : List α} {extra : Nat}
    (hpicks : Spreads eligible own picks) :
    Spreads eligible (load own (List.replicate extra place)) picks ↔
      ∀ before after, picks = before ++ place :: after → ∀ other ∈ eligible, other ≠ place →
        load own before place + extra ≤ load own before other := by
  have hload : ∀ before other, load (load own (List.replicate extra place)) before other =
      load own before other + if other = place then extra else 0 := by
    intro before other
    rw [load, load_replicate, load]
    omega
  constructor
  · intro hspreads before after heq other hother hne
    have hle := (hspreads before place after heq).2 other hother
    rw [hload, hload, if_pos rfl, if_neg hne] at hle
    exact hle
  · intro hextra before pick after heq
    obtain ⟨hpick, hleast⟩ := hpicks before pick after heq
    refine ⟨hpick, fun other hother => ?_⟩
    have hle := hleast other hother
    rw [hload, hload]
    by_cases hplace : pick = place
    · subst hplace
      by_cases hother' : other = pick
      · simp [hother']
      · have := hextra before after heq other hother hother'
        rw [if_pos rfl, if_neg hother']
        omega
    · rw [if_neg hplace]
      omega

/-- From two extra picks on, the batch goes to that place alone while it
spreads, so every pick must fit below the other places. -/
theorem spreads_extra_iff {place : α} {picks : List α} {extra : Nat} (hextra : 2 ≤ extra)
    (hplace : place ∈ eligible) (hpicks : Spreads eligible own picks) :
    Spreads eligible own (List.replicate extra place ++ picks) ↔
      ∀ other ∈ eligible, other ≠ place → own place + extra + picks.length ≤ own other + 1 := by
  rw [spreads_append, spreads_replicate hplace, spreads_after_extra hpicks]
  constructor
  · rintro ⟨hzero | hroom, hbatch⟩
    · omega
    · induction picks generalizing own with
      | nil => simpa using hroom
      | cons pick picks ih =>
          have hcons := (spreads_append [pick] picks).mp hpicks
          have hsame : pick = place := by
            by_contra hne
            have hpick := (spreads_singleton pick).mp hcons.1
            have hle := hpick.2 place hplace
            have hfar := hroom pick hpick.1 hne
            omega
          subst hsame
          have hnext := hbatch [] picks rfl
          have hself : load own [pick] pick = own pick + 1 := by simp [load]
          have hsplit : ∀ other, other ≠ pick → load own [pick] other = own other := by
            intro other hne
            simp [load, hne.symm]
          have hlater : ∀ before after, picks = before ++ pick :: after →
              ∀ other ∈ eligible, other ≠ pick →
                load (load own [pick]) before pick + extra ≤
                  load (load own [pick]) before other := by
            intro before after heq other hother hne
            rw [← load_append]
            exact hbatch (pick :: before) after (by simp [heq]) other hother hne
          have hroom' : ∀ other ∈ eligible, other ≠ pick →
              load own [pick] pick + extra ≤ load own [pick] other + 1 := by
            intro other hother hne
            have hle := hnext other hother hne
            rw [hself, hsplit other hne]
            rw [load_nil] at hle
            omega
          intro other hother hne
          have hrest := ih hcons.2 hlater hroom' other hother hne
          rw [hself, hsplit other hne] at hrest
          rw [List.length_cons]
          omega
  · intro hroom
    constructor
    · right
      intro other hother hne
      have := hroom other hother hne
      omega
    · intro before after heq other hother hne
      have := hroom other hother hne
      have hcount : before.count place ≤ before.length := List.count_le_length
      rw [heq, List.length_append, List.length_cons] at this
      simp only [load]
      omega

/-! ## One extra pick -/

/-- How the picks settle a tie between one place and another at a load. -/
def SettlesTies (eligible : Finset α) (own : α → Nat) (picks : List α) (place : α)
    (yields : Nat → α → Bool) : Prop :=
  ∀ before pick after, picks = before ++ pick :: after →
    ∀ other ∈ eligible, other ≠ place → load own before other = load own before place →
      (pick = place → yields (load own before place) other = false) ∧
        (pick = other → yields (load own before place) other = true)

theorem SettlesTies.of_append {place : α} {yields : Nat → α → Bool} {picks first second : List α}
    (hties : SettlesTies eligible own picks place yields) (hsplit : picks = first ++ second) :
    SettlesTies eligible own first place yields := by
  intro before pick after heq
  exact hties before pick (after ++ second) (by simp [hsplit, heq])

theorem count_lt (index bound : Nat) :
    Nat.count (fun other => other < index) bound = min bound index := by
  induction bound with
  | zero => simp
  | succ bound ih =>
      rw [Nat.count_succ, ih]
      split <;> omega

/-- The picks that fit until one place, at a load, is picked once more. -/
def room (eligible : Finset α) (own : α → Nat) (place : α) (yields : Nat → α → Bool)
    (level : Nat) : Nat :=
  ∑ other ∈ eligible, (level + (if other ≠ place ∧ yields level other then 1 else 0) - own other)

theorem length_eq_sum_count {picks : List α} (hmem : ∀ pick ∈ picks, pick ∈ eligible) :
    picks.length = ∑ place ∈ eligible, picks.count place := by
  have hsum := Multiset.sum_count_eq_card (s := eligible) (m := (picks : Multiset α)) hmem
  simpa using hsum.symm

theorem exists_pick_at {picks : List α} {place : α} {earlier : Nat}
    (hlt : earlier < picks.count place) :
    ∃ before after, picks = before ++ place :: after ∧ before.count place = earlier := by
  induction picks generalizing earlier with
  | nil => simp at hlt
  | cons pick picks ih =>
      by_cases hpick : pick = place
      · subst hpick
        cases earlier with
        | zero => exact ⟨[], picks, rfl, rfl⟩
        | succ earlier =>
            rw [List.count_cons_self] at hlt
            obtain ⟨before, after, rfl, hcount⟩ := ih (Nat.lt_of_succ_lt_succ hlt)
            exact ⟨pick :: before, after, rfl, by simp [hcount]⟩
      · rw [List.count_cons_of_ne hpick] at hlt
        obtain ⟨before, after, rfl, hcount⟩ := ih hlt
        exact ⟨pick :: before, after, rfl, by rw [List.count_cons_of_ne hpick, hcount]⟩

section OneExtra

variable {place : α} {picks : List α} {yields : Nat → α → Bool}

/-- The place is not picked at a load exactly when the batch fits below it. -/
theorem count_le_iff_le_room (hplace : place ∈ eligible)
    (hpicks : Spreads eligible own picks) (hties : SettlesTies eligible own picks place yields)
    {level : Nat} (hlevel : own place ≤ level) :
    own place + picks.count place ≤ level ↔
      picks.length ≤ room eligible own place yields level := by
  constructor
  · intro hcount
    rw [length_eq_sum_count fun _ => hpicks.mem, room]
    refine Finset.sum_le_sum fun other hother => ?_
    by_cases hzero : picks.count other = 0
    · omega
    · obtain ⟨before, after, heq, hlast⟩ :=
        exists_pick_at (Nat.sub_one_lt hzero)
      have hle := (hpicks before other after heq).2 place hplace
      have hbefore : before.count place ≤ picks.count place := by
        rw [heq, List.count_append]
        omega
      by_cases hsame : other = place
      · subst hsame
        simp
        omega
      · by_cases htie : load own before other = load own before place
        · have hyields := (hties before other after heq other hother hsame htie).2 rfl
          simp only [load] at hle htie hyields
          by_cases htop : own place + before.count place = level
          · rw [htop] at hyields
            simp only [ne_eq, hsame, not_false_eq_true, hyields, and_self, if_true]
            omega
          · omega
        · simp only [load] at hle htie
          omega
  · intro hroom
    by_contra hcount
    obtain ⟨before, after, heq, hbefore⟩ :=
      @exists_pick_at α _ picks place (level - own place) (by omega)
    have hload : load own before place = level := by
      simp only [load]
      omega
    have hleast := (hpicks before place after heq).2
    have hmem : ∀ pick ∈ before, pick ∈ eligible := by
      intro pick hpick
      apply hpicks.mem
      simp [heq, hpick]
    have hfull : room eligible own place yields level ≤ before.length := by
      rw [length_eq_sum_count hmem, room]
      refine Finset.sum_le_sum fun other hother => ?_
      have hle := hleast other hother
      rw [hload] at hle
      by_cases hyields : other ≠ place ∧ yields level other = true
      · rw [if_pos hyields]
        have hne : load own before other ≠ load own before place := by
          intro htie
          have hno := (hties before place after heq other hother hyields.1 htie).1 rfl
          rw [hload, hyields.2] at hno
          cases hno
        rw [hload] at hne
        simp only [load] at hle hne
        omega
      · rw [if_neg hyields]
        simp only [load] at hle
        omega
    have hlength : picks.length = before.length + 1 + after.length := by
      simp [heq]
      omega
    omega

/-- What a place carries once that many picks are made: one more for each load
at which it is picked before them. -/
def loadAfter (eligible : Finset α) (own : α → Nat) (yields : Nat → α → Bool) (place : α)
    (picked : Nat) : Nat :=
  own place + (List.range picked).countP fun earlier =>
    room eligible own place yields (own place + earlier) < picked

theorem loadAfter_eq (hplace : place ∈ eligible) (hpicks : Spreads eligible own picks)
    (hties : SettlesTies eligible own picks place yields) :
    loadAfter eligible own yields place picks.length = load own picks place := by
  have hpicked : ∀ earlier, room eligible own place yields (own place + earlier) < picks.length ↔
      earlier < picks.count place := by
    intro earlier
    have hfits := count_le_iff_le_room hplace hpicks hties (Nat.le_add_right (own place) earlier)
    omega
  have hcount : picks.count place ≤ picks.length := List.count_le_length
  rw [loadAfter, load]
  simp only [hpicked]
  rw [← Nat.count, count_lt]
  omega

theorem room_loadAfter_iff (hplace : place ∈ eligible) {earlier : List α} {pick : α}
    {later : List α} (hpicks : Spreads eligible own (earlier ++ pick :: later))
    (hties : SettlesTies eligible own (earlier ++ pick :: later) place yields) :
    room eligible own place yields (load own earlier place) = earlier.length ↔ pick = place := by
  have hbefore := (spreads_append earlier (pick :: later)).mp hpicks
  have hnext := (spreads_append (earlier ++ [pick]) later).mp (by simpa using hpicks)
  have hfits := count_le_iff_le_room hplace hbefore.1 (hties.of_append rfl)
    (Nat.le_add_right (own place) (earlier.count place))
  have hfitsNext := count_le_iff_le_room hplace hnext.1
    (hties.of_append (show _ = (earlier ++ [pick]) ++ later by simp))
    (Nat.le_add_right (own place) (earlier.count place))
  rw [List.count_append, List.length_append, List.length_singleton, List.count_singleton]
    at hfitsNext
  simp only [load]
  by_cases hsame : pick = place
  · rw [if_pos (by simpa using hsame)] at hfitsNext
    refine iff_of_true ?_ hsame
    omega
  · rw [if_neg (by simpa using hsame)] at hfitsNext
    refine iff_of_false ?_ hsame
    omega

/-- After one extra pick of a place, the batch spreads exactly when it fits
below every load at which the place wins a tie. -/
theorem spreads_one_extra_iff (hplace : place ∈ eligible)
    (hleast : ∀ other ∈ eligible, own place ≤ own other)
    (hpicks : Spreads eligible own picks)
    (hties : SettlesTies eligible own picks place yields) :
    Spreads eligible own (List.replicate 1 place ++ picks) ↔
      ∀ other ∈ eligible, other ≠ place → ∀ level, own other ≤ level →
        yields level other = false → picks.length ≤ room eligible own place yields level := by
  rw [spreads_append, spreads_replicate hplace, spreads_after_extra hpicks]
  constructor
  · rintro ⟨-, hbatch⟩ other hother hne level hlevel hwins
    have hown : own place ≤ level := (hleast other hother).trans hlevel
    rw [← count_le_iff_le_room hplace hpicks hties hown]
    by_contra hcount
    obtain ⟨before, after, heq, hbefore⟩ :=
      @exists_pick_at α _ picks place (level - own place) (by omega)
    -- the other place was picked at this load before, so it won the tie then
    have hlt := hbatch before after heq other hother hne
    obtain ⟨first, rest, hfirst, hcountfirst⟩ :=
      @exists_pick_at α _ before other (level - own other) (by
        simp only [load] at hlt
        omega)
    have hsplit : picks = first ++ other :: (rest ++ place :: after) := by
      rw [heq, hfirst]
      simp
    have hle := (hpicks first other _ hsplit).2 place hplace
    have hfewer : first.count place ≤ before.count place := by
      rw [hfirst, List.count_append]
      omega
    have hload : load own first place = level := by
      simp only [load] at hle ⊢
      omega
    have htie : load own first other = load own first place := by
      rw [hload]
      simp only [load]
      omega
    have hyields := (hties first other _ hsplit other hother hne htie).2 rfl
    rw [hload, hwins] at hyields
    cases hyields
  · intro hroom
    refine ⟨.inr fun other hother _ => by have := hleast other hother; omega, ?_⟩
    intro before after heq other hother hne
    have hle := (hpicks before place after heq).2 other hother
    by_contra hgt
    have htie : load own before other = load own before place := by omega
    have hwins := (hties before place after heq other hother hne htie).1 rfl
    have hfits := hroom other hother hne (load own before place)
      (by simp only [load] at htie ⊢; omega) hwins
    rw [← count_le_iff_le_room hplace hpicks hties (by simp only [load]; omega)] at hfits
    rw [heq, List.count_append, List.count_cons_self] at hfits
    simp only [load] at hfits
    omega

end OneExtra

end VllmColdstartOperator.Foundation
