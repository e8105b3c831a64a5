import Mathlib

/-!
# Decimal texts of machine integers

The text of a 32-bit word printed as a signed integer, cut to a number of characters.
Below `2 ^ 31` it is the decimal text of the word; from there on it starts with a minus
sign and is no decimal text of any natural number. A decimal text is read as the rational
number it stands for.
-/

namespace DseFmi.Library

/-- The text `snprintf` leaves in a buffer of `size` characters for the format `%i`. -/
def printInt (size : Nat) (v : UInt32) : String :=
  String.ofList ((toString v.toBitVec.toInt).toList.take (size - 1))

theorem toInt_of_lt {v : UInt32} (small : v.toNat < 2 ^ 31) : v.toBitVec.toInt = v.toNat := by
  rw [BitVec.toInt_eq_toNat_of_lt (by simpa using by omega)]
  rfl

theorem printInt_of_lt {size : Nat} {v : UInt32} (room : 11 ≤ size) (small : v.toNat < 2 ^ 31) :
    printInt size v = Nat.repr v.toNat := by
  have short : (Nat.repr v.toNat).toList.length ≤ size - 1 := by
    have digits : (Nat.repr v.toNat).length ≤ 10 :=
      (Nat.length_repr_le_iff (by decide)).mpr (by omega)
    rw [String.length_toList]
    omega
  have text : toString (v.toNat : Int) = Nat.repr v.toNat := rfl
  rw [printInt, toInt_of_lt small, text, List.take_of_length_le short, String.ofList_toList]

/-- A negative number is never printed as a decimal text, however much is cut off. -/
theorem printInt_ne_repr {size : Nat} {v : UInt32} (room : 2 ≤ size) (large : 2 ^ 31 ≤ v.toNat)
    (n : Nat) : printInt size v ≠ Nat.repr n := by
  intro equal
  have negative : v.toBitVec.toInt < 0 := by
    have := v.toNat_lt
    rw [BitVec.toInt_neg_iff]
    simpa using by omega
  obtain ⟨m, hm⟩ := Int.eq_negSucc_of_lt_zero negative
  have text : (toString (Int.negSucc m)).toList = '-' :: (Nat.repr (m + 1)).toList := by
    show ("-" ++ Nat.repr (m + 1)).toList = _
    simp
  have chars := congrArg String.toList equal
  rw [printInt, hm, String.toList_ofList, text] at chars
  obtain ⟨k, hk⟩ : ∃ k, size - 1 = k + 1 := ⟨size - 2, by omega⟩
  simp only [hk, List.take_succ_cons, Nat.toList_repr] at chars
  have digit := Nat.isDigit_of_mem_toDigits (b := 10) (n := n) (c := '-') (by decide) (by decide)
    (chars ▸ List.mem_cons_self)
  simp at digit

def digitsNumber (digits : List Char) : Option Nat :=
  if !digits.isEmpty && digits.all Char.isDigit then some (Nat.ofDigitChars 10 digits 0) else none

/-- The number of digits with an optional part behind a point. -/
def unsignedNumber (text : List Char) : Option ℚ :=
  match text.span (· ≠ '.') with
  | (whole, []) => (digitsNumber whole).map fun n : Nat => (n : ℚ)
  | (whole, _ :: decimals) => do
      let n ← digitsNumber whole
      let d ← digitsNumber decimals
      return n + d / 10 ^ decimals.length

def decimalNumber : List Char → Option ℚ
  | '-' :: text => (unsignedNumber text).map fun q => -q
  | text => unsignedNumber text

theorem isDigit_of_mem_repr {n : Nat} {c : Char} (h : c ∈ (Nat.repr n).toList) : c.isDigit := by
  rw [Nat.toList_repr] at h
  exact Nat.isDigit_of_mem_toDigits (by decide) (by decide) h

theorem digitsNumber_repr (n : Nat) : digitsNumber (Nat.repr n).toList = some n := by
  have digits : (Nat.repr n).toList.all Char.isDigit := by
    apply List.all_eq_true.mpr
    exact fun c => isDigit_of_mem_repr
  have some_digit : (Nat.repr n).toList.isEmpty = false := by
    simp [Nat.toList_repr]
  rw [digitsNumber, digits, some_digit, Nat.toList_repr]
  simp

theorem unsignedNumber_repr (n : Nat) : unsignedNumber (Nat.repr n).toList = some (n : ℚ) := by
  have no_point : ∀ c ∈ (Nat.repr n).toList, decide (c ≠ '.') = true := by
    intro c h
    have digit := isDigit_of_mem_repr h
    apply decide_eq_true
    rintro rfl
    exact absurd digit (by decide)
  rw [unsignedNumber, List.span_eq_takeWhile_dropWhile, List.takeWhile_eq_self_iff.mpr no_point,
    List.dropWhile_eq_nil_iff.mpr no_point]
  dsimp only
  rw [digitsNumber_repr, Option.map_some]

theorem toList_toString (n : Int) :
    (toString n).toList = (if n < 0 then ['-'] else []) ++ (Nat.repr n.natAbs).toList := by
  cases n with
  | ofNat m =>
      rw [if_neg (by simp)]
      rfl
  | negSucc m =>
      show ("-" ++ Nat.repr (m + 1)).toList = _
      simp

theorem decimalNumber_repr (n : Nat) : decimalNumber (Nat.repr n).toList = some (n : ℚ) := by
  rw [← unsignedNumber_repr]
  unfold decimalNumber
  split
  case h_1 text sign =>
    have digit : ('-' : Char).isDigit := isDigit_of_mem_repr (n := n) (sign ▸ List.mem_cons_self)
    exact absurd digit (by decide)
  case h_2 => rfl

theorem decimalNumber_toString (n : Int) : decimalNumber (toString n).toList = some (n : ℚ) := by
  rw [toList_toString]
  split
  case isTrue negative =>
    have number : (-(n.natAbs : ℚ)) = n := by
      rw [← Int.cast_natCast, Int.ofNat_natAbs_of_nonpos negative.le, Int.cast_neg, neg_neg]
    rw [List.singleton_append, decimalNumber, unsignedNumber_repr, Option.map_some, number]
  case isFalse positive =>
    have number : (n.natAbs : ℚ) = n := by
      rw [← Int.cast_natCast, Int.natAbs_of_nonneg (not_lt.mp positive)]
    rw [List.nil_append, decimalNumber_repr, number]

end DseFmi.Library
