import Mathlib.Algebra.Group.Int.Defs
import Mathlib.Data.List.Basic

/-! Integers as decimal texts, with leading zeros up to a width. -/

namespace Text

/-- An integer with leading zeros up to a width that counts the sign. -/
def zeroPadded (width : Nat) (n : Int) : String :=
  let sign := if n < 0 then ['-'] else []
  let digits := Nat.toDigits 10 n.natAbs
  .ofList (sign ++ (List.replicate (width - sign.length - digits.length) '0' ++ digits))

/-- Without a sign there are only zeros and digits. -/
theorem toList_zeroPadded (width : Nat) {n : Int} (positive : 0 ≤ n) :
    (zeroPadded width n).toList = List.replicate (width - (Nat.toDigits 10 n.natAbs).length) '0' ++
      Nat.toDigits 10 n.natAbs := by
  simp [zeroPadded, Int.not_lt.mpr positive]

/-- Without a width the text is the usual one. -/
theorem toString_eq_zeroPadded (n : Int) : toString n = zeroPadded 0 n := by
  apply String.toList_injective
  cases n with
  | ofNat m => simp [zeroPadded, toString, Int.repr, Nat.repr_eq_ofList_toDigits]
  | negSucc m =>
    have signed : Int.negSucc m < 0 := by omega
    simp [zeroPadded, signed, toString, Int.repr, Nat.repr_eq_ofList_toDigits]

/-- A number that fits the width has exactly as many digits. -/
theorem length_zeroPadded {width : Nat} {n : Int} (positive : 0 ≤ n) (fits : n < 10 ^ width)
    (wide : 0 < width) : (zeroPadded width n).toList.length = width := by
  have digits : (Nat.toDigits 10 n.natAbs).length ≤ width := by
    rw [Nat.length_toDigits_le_iff (by decide) wide, ← Int.ofNat_lt, Int.natAbs_of_nonneg positive]
    exact_mod_cast fits
  rw [toList_zeroPadded width positive, List.length_append, List.length_replicate]
  omega

/-- A text without a sign has digits only. -/
theorem isDigit_of_mem_zeroPadded {width : Nat} {n : Int} (positive : 0 ≤ n) {c : Char}
    (listed : c ∈ (zeroPadded width n).toList) : c.isDigit = true := by
  rw [toList_zeroPadded width positive] at listed
  rcases List.mem_append.mp listed with zero | digit
  · rw [(List.mem_replicate.mp zero).2]
    decide
  · exact Nat.isDigit_of_mem_toDigits (by decide) (by decide) digit

/-- Digits read back as the number, whatever zeros stand in front. -/
theorem ofDigitChars_padded (zeros n : Nat) :
    Nat.ofDigitChars 10 (List.replicate zeros '0' ++ Nat.toDigits 10 n) 0 = n := by
  rw [Nat.ofDigitChars_append, Nat.ofDigitChars_replicate_zero, Nat.mul_zero,
    Nat.ofDigitChars_ten_toDigits]

theorem ofDigitChars_zeroPadded (width : Nat) {n : Int} (positive : 0 ≤ n) :
    (Nat.ofDigitChars 10 (zeroPadded width n).toList 0 : Int) = n := by
  rw [toList_zeroPadded width positive, ofDigitChars_padded]
  omega

/-- The integer that a text stands for. -/
def ofDecimal : List Char → Int
  | '-' :: digits => -(Nat.ofDigitChars 10 digits 0 : Int)
  | digits => Nat.ofDigitChars 10 digits 0

/-- The text reads back as the integer. -/
theorem ofDecimal_zeroPadded (width : Nat) (n : Int) :
    ofDecimal (zeroPadded width n).toList = n := by
  by_cases negative : n < 0
  · unfold zeroPadded
    simp only [negative, if_true, String.toList_ofList, List.singleton_append, ofDecimal,
      ofDigitChars_padded]
    omega
  · have positive : 0 ≤ n := by omega
    unfold ofDecimal
    split
    · -- None of the digits is a sign.
      rename_i digits text
      have sign : '-' ∈ (zeroPadded width n).toList := by
        rw [text]
        exact List.mem_cons_self
      cases isDigit_of_mem_zeroPadded positive sign
    · exact ofDigitChars_zeroPadded width positive

/-- Different integers have different texts. -/
theorem zeroPadded_inj {width : Nat} {n n' : Int}
    (same : zeroPadded width n = zeroPadded width n') : n = n' := by
  rw [← ofDecimal_zeroPadded width n, same, ofDecimal_zeroPadded]

theorem toString_inj {n n' : Int} (same : toString n = toString n') : n = n' := by
  rw [toString_eq_zeroPadded, toString_eq_zeroPadded] at same
  exact zeroPadded_inj same

/-- Reads a number of exactly so many digits from the front of a text. -/
def readDigits (width : Nat) (text : List Char) : Option (Int × List Char) :=
  let digits := text.take width
  if digits.length = width ∧ digits.all Char.isDigit then
    some (Nat.ofDigitChars 10 digits 0, text.drop width)
  else none

/-- Reads a character that has to be there. -/
def readChar (c : Char) : List Char → Option (List Char)
  | [] => none
  | c' :: rest => if c' = c then some rest else none

/-- A number that has been written with its width reads back in front of any text. -/
theorem readDigits_zeroPadded {width : Nat} {n : Int} (positive : 0 ≤ n) (fits : n < 10 ^ width)
    (wide : 0 < width) (rest : List Char) :
    readDigits width ((zeroPadded width n).toList ++ rest) = some (n, rest) := by
  have length := length_zeroPadded positive fits wide
  have digits : (zeroPadded width n).toList.all Char.isDigit = true :=
    List.all_eq_true.mpr fun c listed => isDigit_of_mem_zeroPadded positive listed
  unfold readDigits
  dsimp only
  rw [List.take_left' length, List.drop_left' length, if_pos ⟨length, digits⟩,
    ofDigitChars_zeroPadded width positive]

@[simp]
theorem readChar_cons (c : Char) (rest : List Char) : readChar c (c :: rest) = some rest :=
  if_pos rfl

end Text
