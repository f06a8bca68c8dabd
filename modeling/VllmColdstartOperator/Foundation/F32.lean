import VllmColdstartOperator.Foundation.Comparator

/-!
# Floats

A 32-bit float as its bit pattern, with the predicates and the total order a
program that only validates and ranks signals needs.  `totalCmp` compares the
patterns as signed integers after flipping the magnitude bits of negatives.
`Double` is the arithmetic of 64-bit floats as the program calls it; no law of
it is assumed.
-/

namespace VllmColdstartOperator.Foundation

structure F32 where
  bits : BitVec 32
  deriving DecidableEq, Repr

namespace F32

def sign (value : F32) : Bool := value.bits.msb

def magnitude (value : F32) : Nat := (value.bits &&& 0x7fffffff#32).toNat

def isFinite (value : F32) : Bool := value.magnitude < 0x7f800000

def isZero (value : F32) : Bool := value.magnitude = 0

/-- The comparison `value >= 0.0`, which holds of negative zero. -/
def atLeastZero (value : F32) : Bool :=
  value.magnitude ≤ 0x7f800000 ∧ (value.isZero ∨ value.sign = false)

def atMostOne (value : F32) : Bool :=
  value.magnitude ≤ 0x7f800000 ∧ (value.sign ∨ value.magnitude ≤ 0x3f800000)

def totalKey (value : F32) : Int :=
  (value.bits ^^^ ((value.bits.sshiftRight 31) >>> 1)).toInt

def totalCmp (left right : F32) : Ordering :=
  compare left.totalKey right.totalKey

instance totalCmp_trans : Std.TransCmp totalCmp :=
  inferInstanceAs (Std.TransCmp (compareOn totalKey))

/-- The comparison `==`: the zeros are equal, and a NaN equals nothing. -/
def numEq (left right : F32) : Bool :=
  left.magnitude ≤ 0x7f800000 ∧ right.magnitude ≤ 0x7f800000 ∧
    (left = right ∨ left.isZero ∧ right.isZero)

/-- The bits the total order flips: the magnitude of a negative. -/
def flips (bits : BitVec 32) : BitVec 32 := (bits.sshiftRight 31) >>> 1

theorem getLsbD_flips (bits : BitVec 32) (position : Nat) :
    (flips bits).getLsbD position = (decide (position < 31) && bits.msb) := by
  have hover : ¬ 31 + (1 + position) < 32 := by omega
  rw [flips, BitVec.getLsbD_ushiftRight, BitVec.getLsbD_sshiftRight, if_neg hover]
  by_cases hlow : position < 31
  · have hin : 1 + position < 32 := by omega
    simp [hlow, hin]
  · have hout : ¬ 1 + position < 32 := by omega
    simp [hlow, hout]

theorem totalKey_injective {left right : F32} (hkey : left.totalKey = right.totalKey) :
    left = right := by
  have hbits : left.bits ^^^ flips left.bits = right.bits ^^^ flips right.bits :=
    BitVec.eq_of_toInt_eq hkey
  have hmsb : left.bits.msb = right.bits.msb := by
    have htop := congrArg (fun bits => bits.getLsbD 31) hbits
    simp only [BitVec.getLsbD_xor, getLsbD_flips] at htop
    simpa [BitVec.msb_eq_getLsbD_last] using htop
  have hflips : flips left.bits = flips right.bits := by
    apply BitVec.eq_of_getLsbD_eq
    intro position _
    rw [getLsbD_flips, getLsbD_flips, hmsb]
  rw [hflips] at hbits
  have hsame : left.bits = right.bits := (BitVec.xor_left_inj _).mp hbits
  cases left
  cases right
  exact congrArg F32.mk hsame

theorem totalCmp_eq_iff {left right : F32} : totalCmp left right = .eq ↔ left = right := by
  rw [totalCmp, Std.compare_eq_iff_eq]
  constructor
  · exact totalKey_injective
  · rintro rfl
    rfl

theorem magnitude_of_sign_false {value : F32} (hsign : value.sign = false) :
    value.magnitude = value.bits.toNat := by
  have hsmall : value.bits.toNat < 2 ^ 31 := by
    have := BitVec.msb_eq_false_iff_two_mul_lt.mp hsign
    omega
  rw [magnitude, BitVec.toNat_and]
  exact Nat.and_two_pow_sub_one_of_lt_two_pow (n := 31) hsmall

theorem totalKey_of_sign_false {value : F32} (hsign : value.sign = false) :
    value.totalKey = value.magnitude := by
  have hmsb : value.bits.msb = false := hsign
  have hflips : flips value.bits = 0#32 := by
    apply BitVec.eq_of_getLsbD_eq
    intro position _
    rw [getLsbD_flips, hmsb]
    simp
  have hkey : value.totalKey = (value.bits ^^^ flips value.bits).toInt := rfl
  rw [hkey, hflips, BitVec.xor_zero, magnitude_of_sign_false hsign,
    BitVec.toInt_eq_toNat_of_msb hmsb]

-- the patterns of -0.0, a NaN, 0.5, 1.0 and 0.0
example : atLeastZero ⟨0x80000000#32⟩ = true ∧ isFinite ⟨0x7fc00000#32⟩ = false ∧
    totalCmp ⟨0x3f000000#32⟩ ⟨0x3f800000#32⟩ = .lt ∧
    totalCmp ⟨0x80000000#32⟩ ⟨0x00000000#32⟩ = .lt := by decide

end F32

/-- The operations of a 64-bit float; `ofNat` is the conversion of an unsigned
integer, the literals included. -/
class Double (F : Type) where
  ofNat : Nat → F
  add : F → F → F
  sub : F → F → F
  div : F → F → F
  le : F → F → Bool
  lt : F → F → Bool
  toF32 : F → F32
  parse : String → Option F

namespace Double

variable {F : Type} [Double F]

/-- `*total.get_or_insert(0.0) += value`. -/
def addInto (total : Option F) (value : F) : Option F := some (add (total.getD (ofNat 0)) value)

def total (values : List F) : Option F :=
  if values.isEmpty then none else some (values.foldl add (ofNat 0))

theorem foldl_addInto (values : List F) :
    values.foldl addInto none = total values := by
  have hfold : ∀ (values : List F) (start : F),
      values.foldl addInto (some start) = some (values.foldl add start) := by
    intro values
    induction values with
    | nil => exact fun _ => rfl
    | cons value values ih => exact fun start => ih (add start value)
  cases values with
  | nil => rfl
  | cons value values => exact hfold values (add (ofNat 0) value)

end Double

end VllmColdstartOperator.Foundation
