import Mathlib.Data.Int.Order.Basic
import Mathlib.Data.List.TakeWhile
import Mathlib.Order.Lattice
import Mathlib.Tactic.Common

/-!
# Integer literals and `strtol`

`strtol` with base 0 reads blanks, a sign and a literal of C in decimal, octal or hexadecimal,
and stops at the bounds of a `long`. A literal is read as the number it stands for, as far as
that is one.
-/

namespace DseFmi.Library

/-- The value of a digit or letter, 36 for any other character. -/
def digitValue (c : Char) : Nat :=
  if '0' ≤ c ∧ c ≤ '9' then c.toNat - 48
  else if 'a' ≤ c ∧ c ≤ 'z' then c.toNat - 87
  else if 'A' ≤ c ∧ c ≤ 'Z' then c.toNat - 55
  else 36

def isBlank (c : Char) : Bool := c = ' ' || ('\t' ≤ c && c ≤ '\r')

def numberOf (base : Nat) (digits : List Char) : Nat :=
  digits.foldl (fun n c => n * base + digitValue c) 0

def leadingNumber (base : Nat) (text : List Char) : Nat :=
  numberOf base (text.takeWhile fun c => digitValue c < base)

def markedNumber : List Char → Nat
  | '0' :: x :: c :: text =>
      if (x = 'x' ∨ x = 'X') ∧ digitValue c < 16 then leadingNumber 16 (c :: text)
      else leadingNumber 8 (x :: c :: text)
  | '0' :: text => leadingNumber 8 text
  | text => leadingNumber 10 text

def signedNumber : List Char → Int
  | '-' :: text => -markedNumber text
  | '+' :: text => markedNumber text
  | text => markedNumber text

def clampLong (longMax : Nat) (n : Int) : Int := max (-(longMax + 1)) (min longMax n)

def strtol (longMax : Nat) (text : List Char) : Int :=
  clampLong longMax (signedNumber (text.dropWhile isBlank))

inductive Radix where
  | decimal
  | octal
  | hexadecimal (upper : Bool)
  deriving DecidableEq, Repr

def Radix.base : Radix → Nat
  | .decimal => 10
  | .octal => 8
  | .hexadecimal _ => 16

def Radix.mark : Radix → List Char
  | .decimal => []
  | .octal => ['0']
  | .hexadecimal upper => ['0', if upper then 'X' else 'x']

/-- A decimal number starts with a digit other than zero, a hexadecimal one has a digit. -/
def Radix.Shape : Radix → List Char → Prop
  | .decimal, digits => ∃ c rest, digits = c :: rest ∧ c ≠ '0'
  | .octal, _ => True
  | .hexadecimal _, digits => digits ≠ []

structure IntegerLiteral where
  blanks : Nat
  sign : Option Bool
  radix : Radix
  digits : List Char
  valid : ∀ c ∈ digits, digitValue c < radix.base
  shape : radix.Shape digits

def signText : Option Bool → List Char
  | none => []
  | some negative => [if negative then '-' else '+']

namespace IntegerLiteral

def text (l : IntegerLiteral) : List Char :=
  List.replicate l.blanks ' ' ++ (signText l.sign ++ (l.radix.mark ++ l.digits))

def value (l : IntegerLiteral) : Int :=
  if l.sign = some true then -numberOf l.radix.base l.digits
  else numberOf l.radix.base l.digits

variable (l : IntegerLiteral)

theorem leadingNumber_digits {base : Nat} {digits : List Char}
    (valid : ∀ c ∈ digits, digitValue c < base) :
    leadingNumber base digits = numberOf base digits := by
  rw [leadingNumber, List.takeWhile_eq_self_iff.mpr fun c member => decide_eq_true (valid c member)]

theorem markedNumber_of_ne {c : Char} {text : List Char} (nonzero : c ≠ '0') :
    markedNumber (c :: text) = leadingNumber 10 (c :: text) := by
  unfold markedNumber
  split
  next same =>
    exact absurd (List.cons.inj same).1 nonzero
  next same =>
    exact absurd (List.cons.inj same).1 nonzero
  · rfl

theorem markedNumber_octal {digits : List Char} (valid : ∀ c ∈ digits, digitValue c < 8) :
    markedNumber ('0' :: digits) = leadingNumber 8 digits := by
  match digits with
  | [] => rfl
  | [c] => rfl
  | x :: c :: rest =>
      have small := valid x List.mem_cons_self
      rw [markedNumber, if_neg]
      rintro ⟨rfl | rfl, -⟩
      · exact absurd small (by decide)
      · exact absurd small (by decide)

theorem markedNumber_eq :
    markedNumber (l.radix.mark ++ l.digits) = numberOf l.radix.base l.digits := by
  obtain ⟨_, _, radix, digits, valid, shape⟩ := l
  dsimp only at valid shape ⊢
  cases radix with
  | decimal =>
      obtain ⟨c, rest, rfl, nonzero⟩ := shape
      exact (markedNumber_of_ne nonzero).trans (leadingNumber_digits valid)
  | octal => exact (markedNumber_octal valid).trans (leadingNumber_digits valid)
  | hexadecimal upper =>
      obtain ⟨c, rest, rfl⟩ := List.exists_cons_of_ne_nil shape
      have mark : (if upper then 'X' else 'x') = 'x' ∨ (if upper then 'X' else 'x') = 'X' := by
        cases upper with
        | true => exact .inr rfl
        | false => exact .inl rfl
      have both := And.intro mark (valid c List.mem_cons_self)
      refine Eq.trans ?_ (leadingNumber_digits valid)
      exact if_pos both

theorem exists_digit : ∃ c rest, l.radix.mark ++ l.digits = c :: rest ∧ digitValue c < 36 := by
  obtain ⟨_, _, radix, digits, valid, shape⟩ := l
  dsimp only at valid shape ⊢
  cases radix with
  | decimal =>
      obtain ⟨c, rest, rfl, -⟩ := shape
      exact ⟨c, rest, rfl, Nat.lt_of_lt_of_le (valid c List.mem_cons_self) (by decide)⟩
  | octal => exact ⟨'0', digits, rfl, by decide⟩
  | hexadecimal upper => exact ⟨'0', _, rfl, by decide⟩

theorem signedNumber_eq :
    signedNumber (signText l.sign ++ (l.radix.mark ++ l.digits)) = l.value := by
  have number := l.markedNumber_eq
  unfold value
  cases sign : l.sign with
  | none =>
      obtain ⟨c, rest, text, digit⟩ := l.exists_digit
      rw [text] at number
      rw [signText, List.nil_append, text, if_neg (by simp), ← number]
      unfold signedNumber
      split
      next same =>
        cases (List.cons.inj same).1
        exact absurd digit (by decide)
      next same =>
        cases (List.cons.inj same).1
        exact absurd digit (by decide)
      · rfl
  | some negative =>
      cases negative with
      | true => simp [signText, signedNumber, number]
      | false => simp [signText, signedNumber, number]

theorem base_le (radix : Radix) : radix.base ≤ 36 := by
  cases radix with
  | decimal => decide
  | octal => decide
  | hexadecimal upper => exact (by decide : 16 ≤ 36)

theorem digitValue_of_mem_mark {radix : Radix} {c : Char} (member : c ∈ radix.mark) :
    digitValue c < 36 := by
  cases radix with
  | decimal => cases member
  | octal =>
      cases List.mem_singleton.mp member
      decide
  | hexadecimal upper =>
      rcases List.mem_cons.mp member with rfl | letter
      · decide
      · rw [List.mem_singleton.mp letter]
        cases upper with
        | true => decide
        | false => decide

/-- Every character of a literal is a blank, a sign or part of a number. -/
theorem mem_text {c : Char} (member : c ∈ l.text) :
    c = ' ' ∨ c = '-' ∨ c = '+' ∨ digitValue c < 36 := by
  rcases List.mem_append.mp member with blank | member
  · exact .inl (List.eq_of_mem_replicate blank)
  · right
    rcases List.mem_append.mp member with sign | member
    · cases present : l.sign with
      | none =>
          rw [present] at sign
          cases sign
      | some negative =>
          rw [present] at sign
          cases negative with
          | true => exact .inl (List.mem_singleton.mp sign)
          | false => exact .inr (.inl (List.mem_singleton.mp sign))
    · right
      right
      rcases List.mem_append.mp member with mark | digit
      · exact digitValue_of_mem_mark mark
      · exact Nat.lt_of_lt_of_le (l.valid c digit) (base_le l.radix)

theorem isBlank_of_digit {c : Char} (digit : digitValue c < 36) : isBlank c = false := by
  by_contra blank
  simp only [isBlank, Bool.not_eq_false, Bool.or_eq_true, decide_eq_true_eq, Bool.and_eq_true]
    at blank
  rcases blank with rfl | ⟨-, low⟩
  · exact absurd digit (by decide)
  · have code : c.toNat ≤ 13 := low
    have above {d : Char} (big : 13 < d.toNat) : ¬ d ≤ c := fun le =>
      absurd (Nat.le_trans (show d.toNat ≤ c.toNat from le) code) (Nat.not_le.mpr big)
    rw [digitValue, if_neg fun h => above (by decide) h.1, if_neg fun h => above (by decide) h.1,
      if_neg fun h => above (by decide) h.1] at digit
    exact absurd digit (by decide)

theorem dropWhile_text :
    l.text.dropWhile isBlank = signText l.sign ++ (l.radix.mark ++ l.digits) := by
  have front : ∀ c ∈ List.replicate l.blanks ' ', isBlank c = true := by
    intro c member
    rw [List.eq_of_mem_replicate member]
    rfl
  rw [text, List.dropWhile_append_of_pos front]
  cases l.sign with
  | none =>
      obtain ⟨c, rest, text, digit⟩ := l.exists_digit
      rw [signText, List.nil_append, text, List.dropWhile_cons_of_neg]
      simp [isBlank_of_digit digit]
  | some negative =>
      cases negative with
      | true => rfl
      | false => rfl

theorem strtol_text (longMax : Nat) : strtol longMax l.text = clampLong longMax l.value := by
  rw [strtol, dropWhile_text, signedNumber_eq]

end IntegerLiteral

end DseFmi.Library
