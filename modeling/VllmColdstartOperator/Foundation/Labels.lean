import VllmColdstartOperator.Foundation.BTreeMap
import VllmColdstartOperator.Foundation.Text

/-!
# Labels and what selects them

A label map selects another one that has all its pairs.  A label query is a text
of equality-based requirements joined by commas.
-/

namespace VllmColdstartOperator.Foundation

open Std

def matchesLabels (wanted labels : BTreeMap String String) : Bool :=
  wanted.toList.all fun pair => labels[pair.1]? == some pair.2

theorem matchesLabels_iff {wanted labels : BTreeMap String String} :
    matchesLabels wanted labels = true ↔
      ∀ key value : String, wanted[key]? = some value → labels[key]? = some value := by
  simp only [matchesLabels, List.all_eq_true, beq_iff_eq, Prod.forall,
    ExtTreeMap.mem_toList_iff_getElem?_eq_some]

/-! ## Label queries -/

inductive LabelRequirement where
  | present (key : String)
  | absent (key : String)
  | equal (key value : String)
  | differs (key value : String)
  deriving DecidableEq, Repr

def LabelRequirement.holds (labels : BTreeMap String String) : LabelRequirement → Bool
  | .present key => (labels[key]?).isSome
  | .absent key => (labels[key]?).isNone
  | .equal key value => labels[key]? == some value
  | .differs key value => labels[key]? != some value

def isOperator (char : Char) : Bool := char = '=' ∨ char = '!'

/-- `key`, `!key`, `key=value`, `key==value` or `key!=value`. -/
def parseRequirement (text : List Char) : Option LabelRequirement :=
  let key := trim (text.takeWhile fun char => !isOperator char)
  match text.dropWhile fun char => !isOperator char with
  | [] => some (.present (.ofList key))
  | '=' :: '=' :: value => some (.equal (.ofList key) (.ofList (trim value)))
  | '=' :: value => some (.equal (.ofList key) (.ofList (trim value)))
  | '!' :: '=' :: value => some (.differs (.ofList key) (.ofList (trim value)))
  | '!' :: name => if key.isEmpty then some (.absent (.ofList (trim name))) else none
  | _ => none

def queryMatches (query : String) (labels : BTreeMap String String) : Bool :=
  (query.toList.splitOn ',').all fun part =>
    ((parseRequirement part).map fun requirement => requirement.holds labels).getD false

/-- The characters of label keys and values: letters, digits, `-`, `.`, `/` and `_`. -/
def isLabelChar (char : Char) : Bool :=
  (0x2d ≤ char.toNat ∧ char.toNat ≤ 0x39) ∨ (0x41 ≤ char.toNat ∧ char.toNat ≤ 0x5a) ∨
    char.toNat = 0x5f ∨ (0x61 ≤ char.toNat ∧ char.toNat ≤ 0x7a)

def IsLabelText (text : String) : Prop := ∀ char ∈ text.toList, isLabelChar char = true

instance (text : String) : Decidable (IsLabelText text) :=
  inferInstanceAs (Decidable (∀ char ∈ text.toList, isLabelChar char = true))

theorem isLabelChar_plain {char : Char} (hlabel : isLabelChar char = true) :
    char ≠ ',' ∧ isOperator char = false ∧ isWhitespace char = false := by
  refine ⟨?_, ?_, ?_⟩
  · rintro rfl
    exact absurd hlabel (by decide)
  · by_contra hoperator
    rcases of_decide_eq_true (Bool.not_eq_false _ ▸ hoperator) with rfl | rfl
    · exact absurd hlabel (by decide)
    · exact absurd hlabel (by decide)
  · simp only [isLabelChar, isWhitespace, decide_eq_true_eq, decide_eq_false_iff_not] at hlabel ⊢
    omega

theorem trim_of_plain {text : List Char} (hplain : ∀ char ∈ text, isWhitespace char = false) :
    trim text = text := by
  have hkeep : ∀ text : List Char, (∀ char ∈ text, isWhitespace char = false) →
      text.dropWhile isWhitespace = text := by
    intro text hplain
    cases text with
    | nil => rfl
    | cons char text => simp [hplain char List.mem_cons_self]
  rw [trim, hkeep text hplain, hkeep _ (by simpa using hplain), List.reverse_reverse]

theorem queryMatches_equal {key value : String} (hkey : IsLabelText key)
    (hvalue : IsLabelText value) (labels : BTreeMap String String) :
    queryMatches (key ++ "=" ++ value) labels = true ↔ labels[key]? = some value := by
  have htext : (key ++ "=" ++ value).toList = key.toList ++ '=' :: value.toList := by simp
  have hpart : ',' ∉ key.toList ++ '=' :: value.toList := by
    rw [List.mem_append, List.mem_cons]
    rintro (hmem | hmem | hmem)
    · exact (isLabelChar_plain (hkey _ hmem)).1 rfl
    · exact absurd hmem (by decide)
    · exact (isLabelChar_plain (hvalue _ hmem)).1 rfl
  have hinside : ∀ char ∈ key.toList, (!isOperator char) = true := fun char hmem => by
    simp [(isLabelChar_plain (hkey char hmem)).2.1]
  have hparse : parseRequirement (key.toList ++ '=' :: value.toList) = some (.equal key value) := by
    rw [parseRequirement, List.takeWhile_append_of_pos hinside,
      List.dropWhile_append_of_pos hinside]
    have hstop : (!isOperator '=') = false := rfl
    rw [List.takeWhile_cons_of_neg (by simp [hstop]), List.dropWhile_cons_of_neg (by simp [hstop]),
      List.append_nil, trim_of_plain fun char hmem => (isLabelChar_plain (hkey char hmem)).2.2]
    have htrim : trim value.toList = value.toList :=
      trim_of_plain fun char hmem => (isLabelChar_plain (hvalue char hmem)).2.2
    split
    next hnone => cases hnone
    next rest hdouble =>
      -- a label's value does not begin with the operator
      injection hdouble with _ hvalueText
      exact absurd (hvalue '=' (by simp [hvalueText])) (by decide)
    next rest _ hsingle =>
      injection hsingle with _ hvalueText
      simp [← hvalueText, htrim]
    next hdiffers => simp at hdiffers
    next habsent => simp at habsent
    next hequal _ _ => exact absurd rfl (hequal value.toList)
  rw [queryMatches, htext, List.splitOn_eq_singleton hpart]
  simp [hparse, LabelRequirement.holds]

end VllmColdstartOperator.Foundation
