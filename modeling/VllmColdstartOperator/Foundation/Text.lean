import Mathlib

/-!
# Splitting and parsing text

`rsplitOnce`, `parseUsize` and `parseI64` follow the documented behaviour of
the standard library functions of those names: the split is at the last
separator, and an integer is an optional sign followed by at least one decimal
digit whose value fits the type.  So do `lines`, `trim`, `stripPrefix` and the
first word of `split_whitespace`, which read text as a list of characters.
-/

namespace VllmColdstartOperator.Foundation

def rsplitOnce (text : String) (separator : Char) : Option (String × String) :=
  match text.toList.reverse.span (· ≠ separator) with
  | (_, []) => none
  | (tail, _ :: head) =>
      some (String.ofList head.reverse, String.ofList tail.reverse)

/-- The value of a nonempty run of decimal digits. -/
def decimalDigits (digits : List Char) : Option Nat :=
  if digits ≠ [] ∧ digits.all Char.isDigit then
    some (Nat.ofDigitChars 10 digits 0)
  else none

def usizeMax : Nat := 2 ^ 64 - 1

def parseUsize (text : String) : Option Nat := do
  let value ← match text.toList with
    | '+' :: digits => decimalDigits digits
    | digits => decimalDigits digits
  if value ≤ usizeMax then some value else none

def parseI64 (text : String) : Option Int := do
  let value ← match text.toList with
    | '+' :: digits => (decimalDigits digits).map Int.ofNat
    | '-' :: digits => (decimalDigits digits).map fun value => -Int.ofNat value
    | digits => (decimalDigits digits).map Int.ofNat
  if -(2 ^ 63) ≤ value ∧ value < 2 ^ 63 then some value else none

theorem isDigit_of_mem_repr {index : Nat} {char : Char}
    (hmem : char ∈ (toString index).toList) : char.isDigit = true := by
  rw [Nat.toString_eq_repr, Nat.toList_repr] at hmem
  exact Nat.isDigit_of_mem_toDigits (by decide) (by decide) hmem

theorem decimalDigits_toString (index : Nat) :
    decimalDigits (toString index).toList = some index := by
  have hne : (toString index).toList ≠ [] := by
    rw [Nat.toString_eq_repr, Nat.toList_repr]
    exact Nat.toDigits_ne_nil
  have hall : (toString index).toList.all Char.isDigit = true :=
    List.all_eq_true.mpr fun _ hmem => isDigit_of_mem_repr hmem
  rw [decimalDigits, if_pos ⟨hne, hall⟩, Nat.toString_eq_repr, Nat.toList_repr,
    Nat.ofDigitChars_toDigits (by decide) (by decide)]

theorem parseUsize_le {text : String} {value : Nat} (hparse : parseUsize text = some value) :
    value ≤ usizeMax := by
  have hread : ∀ digits : Option Nat,
      (digits.bind fun value => if value ≤ usizeMax then some value else none) = some value →
        value ≤ usizeMax := by
    intro digits hdigits
    obtain ⟨found, -, hfound⟩ := Option.bind_eq_some_iff.mp hdigits
    split at hfound
    · next hle =>
        cases hfound
        exact hle
    · cases hfound
  unfold parseUsize at hparse
  split at hparse
  · exact hread _ hparse
  · exact hread _ hparse

theorem parseUsize_toString (index : Nat) :
    parseUsize (toString index) = if index ≤ usizeMax then some index else none := by
  have hsign : ∀ digits, (toString index).toList ≠ '+' :: digits := by
    intro digits heq
    have hmem : '+' ∈ (toString index).toList := by
      rw [heq]
      exact List.mem_cons_self
    exact absurd (isDigit_of_mem_repr hmem) (by decide)
  unfold parseUsize
  split
  · next digits heq => exact absurd heq (hsign digits)
  · rw [decimalDigits_toString]
    rfl

theorem rsplitOnce_append {separator : Char} {tail : String}
    (habsent : separator ∉ tail.toList) (head : String) :
    rsplitOnce (head ++ String.singleton separator ++ tail) separator =
      some (head, tail) := by
  have hspan : (tail.toList.reverse ++ separator :: head.toList.reverse).span
      (· ≠ separator) = (tail.toList.reverse, separator :: head.toList.reverse) := by
    have hall : ∀ char ∈ tail.toList.reverse, decide (char ≠ separator) = true := by
      intro char hmem
      have hne : char ≠ separator := by
        rintro rfl
        exact habsent (List.mem_reverse.mp hmem)
      simpa using hne
    rw [List.span_eq_takeWhile_dropWhile, List.takeWhile_append_of_pos hall,
      List.dropWhile_append_of_pos hall]
    simp
  have hreverse : (head ++ String.singleton separator ++ tail).toList.reverse =
      tail.toList.reverse ++ separator :: head.toList.reverse := by
    simp
  rw [rsplitOnce, hreverse, hspan]
  simp

theorem rsplitOnce_eq_some_iff {text head tail : String} {separator : Char} :
    rsplitOnce text separator = some (head, tail) ↔
      text = head ++ String.singleton separator ++ tail ∧ separator ∉ tail.toList := by
  constructor
  · intro hsplit
    rw [rsplitOnce, List.span_eq_takeWhile_dropWhile] at hsplit
    split at hsplit
    next => cases hsplit
    next last other rest heq =>
      obtain ⟨htake, hdrop⟩ := Prod.mk.inj heq
      rw [Option.some.injEq, Prod.mk.injEq] at hsplit
      obtain ⟨hhead, htail⟩ := hsplit
      have hseparator : other = separator := by
        have hfirst := List.head?_dropWhile_not (· ≠ separator) text.toList.reverse
        rw [hdrop] at hfirst
        simpa using hfirst
      have htext : text.toList = rest.reverse ++ [separator] ++ last.reverse := by
        have hwhole := List.takeWhile_append_dropWhile (p := fun char => decide (char ≠ separator))
          (l := text.toList.reverse)
        rw [htake, hdrop, hseparator] at hwhole
        have hreversed := congrArg List.reverse hwhole
        simpa using hreversed.symm
      refine ⟨?_, ?_⟩
      · apply String.toList_inj.mp
        rw [htext, ← hhead, ← htail]
        simp
      · rw [← htail, ← htake]
        intro hmem
        have hkept := List.mem_takeWhile_imp (List.mem_reverse.mp (by simpa using hmem))
        simp at hkept
  · rintro ⟨rfl, habsent⟩
    exact rsplitOnce_append habsent head

theorem decimalDigits_eq_some_iff {digits : List Char} {value : Nat} :
    decimalDigits digits = some value ↔
      digits ≠ [] ∧ digits.all Char.isDigit = true ∧ Nat.ofDigitChars 10 digits 0 = value := by
  rw [decimalDigits]
  split
  next hdigits => simp [hdigits.1, hdigits.2]
  next hdigits =>
    refine iff_of_false (by simp) fun h => hdigits ⟨h.1, h.2.1⟩

theorem parseUsize_eq_some_iff {text : String} {value : Nat} :
    parseUsize text = some value ↔ value ≤ usizeMax ∧
      ∃ (plus : Bool) (digits : List Char), text.toList = (if plus then ['+'] else []) ++ digits ∧
        digits ≠ [] ∧ digits.all Char.isDigit = true ∧
        Nat.ofDigitChars 10 digits 0 = value := by
  have hbound : ∀ read : Option Nat,
      (read.bind fun value => if value ≤ usizeMax then some value else none) = some value ↔
        value ≤ usizeMax ∧ read = some value := by
    intro read
    cases read with
    | none => simp
    | some found =>
        by_cases hle : found ≤ usizeMax
        · simp [hle]
          rintro rfl
          exact hle
        · simp [hle]
          rintro hvalue rfl
          exact hle hvalue
  unfold parseUsize
  split
  next digits heq =>
    refine (hbound _).trans (and_congr_right fun _ => ?_)
    rw [decimalDigits_eq_some_iff]
    constructor
    · intro hdigits
      exact ⟨true, digits, heq, hdigits⟩
    · rintro ⟨plus, other, htext, hother⟩
      rw [heq] at htext
      cases plus with
      | true =>
          cases htext
          exact hother
      | false =>
          rw [if_neg Bool.false_ne_true, List.nil_append] at htext
          have hplus := List.all_eq_true.mp hother.2.1 '+' (htext ▸ List.mem_cons_self)
          exact absurd hplus (by decide)
  next digits hsign =>
    refine (hbound _).trans (and_congr_right fun _ => ?_)
    rw [decimalDigits_eq_some_iff]
    constructor
    · intro hdigits
      exact ⟨false, text.toList, rfl, hdigits⟩
    · rintro ⟨plus, other, htext, hother⟩
      cases plus with
      | true => exact absurd htext (hsign other)
      | false =>
          rw [if_neg Bool.false_ne_true, List.nil_append] at htext
          rw [htext]
          exact hother

/-! ## Canonical decimals -/

theorem toDigits_ne_zero_cons {value : Nat} (hpos : 0 < value) (rest : List Char) :
    Nat.toDigits 10 value ≠ '0' :: rest := by
  induction value using Nat.strongRecOn generalizing rest with
  | ind value ih =>
      by_cases hsmall : value < 10
      · rw [Nat.toDigits_of_lt_base hsmall]
        intro heq
        have hzero := Nat.digitChar_eq_zero.mp (List.cons.inj heq).1
        omega
      · rw [Nat.toDigits_of_base_le (by decide) (by omega)]
        intro heq
        cases hdigits : Nat.toDigits 10 (value / 10) with
        | nil => exact Nat.toDigits_ne_nil hdigits
        | cons first digits =>
            rw [hdigits, List.cons_append] at heq
            rw [(List.cons.inj heq).1] at hdigits
            exact ih (value / 10) (by omega) (by omega) digits hdigits

theorem digitChar_sub_zero {char : Char} (hdigit : char.isDigit = true) :
    char.toNat - '0'.toNat < 10 ∧ Nat.digitChar (char.toNat - '0'.toNat) = char := by
  have hrange : 48 ≤ char.toNat ∧ char.toNat ≤ 57 := by
    rw [Char.isDigit, Bool.and_eq_true, decide_eq_true_eq, decide_eq_true_eq] at hdigit
    exact ⟨UInt32.le_iff_toNat_le.mp hdigit.1, UInt32.le_iff_toNat_le.mp hdigit.2⟩
  have hlt : char.toNat - '0'.toNat < 10 := by
    change char.toNat - 48 < 10
    omega
  refine ⟨hlt, Char.toNat_inj.mp ?_⟩
  rw [Nat.toNat_digitChar_of_lt_ten hlt]
  change 48 + (char.toNat - 48) = char.toNat
  omega

theorem toDigits_append_digits {digits : List Char} (hdigits : digits.all Char.isDigit = true)
    {start : Nat} (hpos : 0 < start) :
    Nat.toDigits 10 start ++ digits = Nat.toDigits 10 (Nat.ofDigitChars 10 digits start) := by
  induction digits generalizing start with
  | nil => simp
  | cons char digits ih =>
      rw [List.all_cons, Bool.and_eq_true] at hdigits
      obtain ⟨hlt, hchar⟩ := digitChar_sub_zero hdigits.1
      have hstep := Nat.toDigits_append_toDigits (b := 10) (by decide) hpos hlt
      rw [Nat.toDigits_of_lt_base hlt, hchar] at hstep
      rw [Nat.ofDigitChars_cons, ← ih hdigits.2 (by omega), ← hstep, List.append_assoc,
        List.singleton_append]

theorem toString_ofDigitChars_iff {digits : List Char} (hne : digits ≠ [])
    (hdigits : digits.all Char.isDigit = true) :
    (toString (Nat.ofDigitChars 10 digits 0)).toList = digits ↔
      ∀ rest, digits = '0' :: rest → rest = [] := by
  rw [Nat.toString_eq_repr, Nat.toList_repr]
  constructor
  · rintro heq rest rfl
    by_cases hpos : 0 < Nat.ofDigitChars 10 ('0' :: rest) 0
    · exact absurd heq (toDigits_ne_zero_cons hpos rest)
    · rw [Nat.eq_zero_of_not_pos hpos, Nat.toDigits_zero] at heq
      exact (List.cons.inj heq).2.symm
  · intro hcanonical
    cases digits with
    | nil => exact absurd rfl hne
    | cons char digits =>
        rw [List.all_cons, Bool.and_eq_true] at hdigits
        obtain ⟨hlt, hchar⟩ := digitChar_sub_zero hdigits.1
        rw [Nat.ofDigitChars_cons, Nat.mul_zero, Nat.zero_add]
        by_cases hzero : char = '0'
        · rw [hzero] at hcanonical ⊢
          rw [hcanonical digits rfl]
          rfl
        · have hpos : 0 < char.toNat - '0'.toNat := by
            apply Nat.pos_of_ne_zero
            intro hvalue
            rw [hvalue] at hchar
            exact hzero hchar.symm
          rw [← toDigits_append_digits hdigits.2 hpos, Nat.toDigits_of_lt_base hlt, hchar,
            List.singleton_append]

/-! ## Lines and words -/

/-- The Unicode property `White_Space`. -/
def isWhitespace (char : Char) : Bool :=
  (0x9 ≤ char.toNat ∧ char.toNat ≤ 0xd) ∨ char.toNat = 0x20 ∨ char.toNat = 0x85 ∨
    char.toNat = 0xa0 ∨ char.toNat = 0x1680 ∨ (0x2000 ≤ char.toNat ∧ char.toNat ≤ 0x200a) ∨
    char.toNat = 0x2028 ∨ char.toNat = 0x2029 ∨ char.toNat = 0x202f ∨ char.toNat = 0x205f ∨
    char.toNat = 0x3000

/-- A line ends at a line feed, with the carriage return before it; the last
line end is optional. -/
def lines : List Char → List (List Char)
  | [] => []
  | '\n' :: rest => [] :: lines rest
  | '\r' :: '\n' :: rest => [] :: lines rest
  | char :: rest =>
      match lines rest with
      | [] => [[char]]
      | line :: lines => (char :: line) :: lines

def trim (text : List Char) : List Char :=
  ((text.dropWhile isWhitespace).reverse.dropWhile isWhitespace).reverse

def stripPrefix : List Char → List Char → Option (List Char)
  | [], text => some text
  | _ :: _, [] => none
  | expected :: rest, char :: text => if expected = char then stripPrefix rest text else none

def firstWord (text : List Char) : Option (List Char) :=
  match (text.dropWhile isWhitespace).takeWhile (fun char => !isWhitespace char) with
  | [] => none
  | word => some word

/-! ## Reading a line back -/

/-- What `lines` yields of a text that ends at a line feed. -/
def lineOf (text : List Char) : List Char :=
  if text.getLast? = some '\r' then text.dropLast else text

theorem lineOf_cons {text : List Char} (hne : text ≠ []) (char : Char) :
    lineOf (char :: text) = char :: lineOf text := by
  obtain ⟨first, rest, rfl⟩ := List.exists_cons_of_ne_nil hne
  rw [lineOf, lineOf, List.getLast?_cons_cons]
  split
  · rfl
  · rfl

theorem lines_append {text : List Char} (hline : '\n' ∉ text) (rest : List Char) :
    lines (text ++ '\n' :: rest) = lineOf text :: lines rest := by
  induction text with
  | nil => rfl
  | cons char text ih =>
      rw [List.mem_cons, not_or] at hline
      obtain ⟨hchar, htext⟩ := hline
      cases text with
      | nil =>
          by_cases hreturn : char = '\r'
          · rw [hreturn]
            rfl
          · have hlast : lineOf [char] = [char] := by
              rw [lineOf, if_neg (by simpa using hreturn)]
            rw [hlast, List.singleton_append, lines]
            · rfl
            · exact Ne.symm hchar
            · intro other heq
              exact absurd heq hreturn
      | cons next text =>
          have hnext : next ≠ '\n' := fun heq => htext (heq ▸ List.mem_cons_self)
          have htail := ih htext
          rw [lineOf_cons (List.cons_ne_nil _ _), List.cons_append, lines, htail]
          · exact Ne.symm hchar
          · intro other _ heq
            rw [List.cons_append] at heq
            exact hnext (List.cons.inj heq).1

theorem lines_flatMap {α : Type} (text : α → List Char) {items : List α}
    (hlines : ∀ item ∈ items, '\n' ∉ text item) :
    lines (items.flatMap fun item => text item ++ ['\n']) =
      items.map fun item => lineOf (text item) := by
  induction items with
  | nil => rfl
  | cons item items ih =>
      rw [List.forall_mem_cons] at hlines
      rw [List.flatMap_cons, List.append_assoc, List.singleton_append, lines_append hlines.1,
        ih hlines.2, List.map_cons]

theorem trim_append_whitespace (text : List Char) {char : Char}
    (hspace : isWhitespace char = true) : trim (text ++ [char]) = trim text := by
  rw [trim, trim, List.dropWhile_append]
  split
  next hempty =>
    rw [List.isEmpty_iff] at hempty
    simp [hempty, hspace]
  next => simp [hspace]

theorem trim_lineOf (text : List Char) : trim (lineOf text) = trim text := by
  rw [lineOf]
  split
  next hlast =>
    conv_rhs => rw [← List.dropLast_append_getLast? '\r' hlast]
    exact (trim_append_whitespace _ (by decide)).symm
  next => rfl

theorem dropWhile_of_head {text : List Char} {test : Char → Bool}
    (hhead : ∀ char, text.head? = some char → test char = false) :
    text.dropWhile test = text := by
  cases text with
  | nil => rfl
  | cons char text => simp [hhead char rfl]

theorem trim_of_ends {text : List Char}
    (hhead : ∀ char, text.head? = some char → isWhitespace char = false)
    (hlast : ∀ char, text.getLast? = some char → isWhitespace char = false) :
    trim text = text := by
  rw [trim, dropWhile_of_head hhead, dropWhile_of_head, List.reverse_reverse]
  intro char hchar
  rw [List.head?_reverse] at hchar
  exact hlast char hchar

theorem trim_eq_nil {text : List Char} (hspace : ∀ char ∈ text, isWhitespace char = true) :
    trim text = [] := by
  rw [trim, List.dropWhile_eq_nil_iff.mpr hspace]
  rfl

theorem trim_head {blanks : List Char} (hblanks : ∀ char ∈ blanks, isWhitespace char = true)
    {char : Char} (hchar : isWhitespace char = false) (rest : List Char) :
    (trim (blanks ++ char :: rest)).head? = some char := by
  have hdrop : (blanks ++ char :: rest).dropWhile isWhitespace = char :: rest := by
    rw [List.dropWhile_append_of_pos hblanks, List.dropWhile_cons_of_neg (by simp [hchar])]
  rw [trim, hdrop, List.reverse_cons, List.dropWhile_append]
  split
  next => simp [hchar]
  next => simp

theorem stripPrefix_eq_some_iff {wanted text rest : List Char} :
    stripPrefix wanted text = some rest ↔ text = wanted ++ rest := by
  induction wanted generalizing text with
  | nil => simp [stripPrefix]
  | cons expected wanted ih =>
      cases text with
      | nil => simp [stripPrefix]
      | cons char text =>
          rw [stripPrefix]
          by_cases hchar : expected = char
          · simp [hchar, ih]
          · simp [hchar, Ne.symm hchar]

def IsWord (word : List Char) : Prop :=
  word ≠ [] ∧ ∀ char ∈ word, isWhitespace char = false

instance (word : List Char) : Decidable (IsWord word) :=
  decidable_of_iff (word ≠ [] ∧ word.all (fun char => !isWhitespace char) = true) (by simp [IsWord])

theorem firstWord_append {blanks word rest : List Char}
    (hblanks : ∀ char ∈ blanks, isWhitespace char = true) (hword : IsWord word)
    (hrest : ∀ char, rest.head? = some char → isWhitespace char = true) :
    firstWord (blanks ++ (word ++ rest)) = some word := by
  have htake : (word ++ rest).takeWhile (fun char => !isWhitespace char) = word := by
    rw [List.takeWhile_append_of_pos (by simpa using hword.2)]
    cases rest with
    | nil => simp
    | cons char rest => simp [hrest char rfl]
  have hdrop : (word ++ rest).dropWhile isWhitespace = word ++ rest := by
    obtain ⟨first, more, rfl⟩ := List.exists_cons_of_ne_nil hword.1
    simp [hword.2 first List.mem_cons_self]
  rw [firstWord, List.dropWhile_append_of_pos hblanks, hdrop, htake]
  obtain ⟨first, more, rfl⟩ := List.exists_cons_of_ne_nil hword.1
  rfl

end VllmColdstartOperator.Foundation
