import DseFmi.FmiGateway.SessionExports
import DseFmi.Library.Decimal

/-!
# The numbers of script parameters

A command gets the number of a parameter as the text of its integral part. The default of a
parameter is a text with six decimals.
-/

namespace DseFmi.FmiGateway

open DseFmi.Fmu DseFmi.Generate DseFmi.Library

def magnitude (x : Double) : ℚ :=
  if exponentOf x = 0 then fractionOf x * 2 ^ (-1074 : ℤ)
  else (2 ^ 52 + fractionOf x : ℕ) * 2 ^ ((exponentOf x : ℤ) - 1075)

/-- The number that a finite double stands for. -/
def realValue (x : Double) : ℚ := if x.msb then -magnitude x else magnitude x

example : realValue 0xBFF8000000000000#64 = -3 / 2 := by decide +kernel

theorem fractionOf_lt (x : Double) : fractionOf x < 2 ^ 52 := (x.extractLsb' 0 52).isLt

theorem magnitude_nonneg (x : Double) : 0 ≤ magnitude x := by
  unfold magnitude
  split
  · positivity
  · positivity

theorem abs_realValue (x : Double) : |realValue x| = magnitude x := by
  unfold realValue
  split
  · rw [abs_neg, abs_of_nonneg (magnitude_nonneg x)]
  · exact abs_of_nonneg (magnitude_nonneg x)

theorem magnitude_normal {x : Double} (normal : exponentOf x ≠ 0) :
    magnitude x = (2 ^ 52 + fractionOf x : ℕ) * 2 ^ ((exponentOf x : ℤ) - 1075) := if_neg normal

theorem magnitude_lt_one {x : Double} (small : exponentOf x < 1023) : magnitude x < 1 := by
  have fraction := fractionOf_lt x
  by_cases subnormal : exponentOf x = 0
  · have below : (fractionOf x : ℚ) < 2 ^ 52 := by exact_mod_cast fraction
    calc magnitude x = fractionOf x * 2 ^ (-1074 : ℤ) := if_pos subnormal
      _ < 2 ^ 52 * 2 ^ (-1074 : ℤ) := by gcongr
      _ ≤ 2 ^ 52 * 2 ^ (-52 : ℤ) := by
          gcongr
          · norm_num
          · norm_num
      _ = 1 := by norm_num
  · have below : ((2 ^ 52 + fractionOf x : ℕ) : ℚ) < 2 ^ 53 := by
      exact_mod_cast (by omega : 2 ^ 52 + fractionOf x < 2 ^ 53)
    calc magnitude x = (2 ^ 52 + fractionOf x : ℕ) * 2 ^ ((exponentOf x : ℤ) - 1075) :=
          magnitude_normal subnormal
      _ < 2 ^ 53 * 2 ^ ((exponentOf x : ℤ) - 1075) := by gcongr
      _ ≤ 2 ^ 53 * 2 ^ (-53 : ℤ) := by
          gcongr
          · norm_num
          · omega
      _ = 1 := by norm_num

theorem toSize_eq_floor (x : Double) : toSize x = ⌊magnitude x⌋₊ := by
  rw [toSize]
  by_cases small : exponentOf x < 1023
  · rw [if_pos small]
    exact (Nat.floor_eq_zero.mpr (magnitude_lt_one small)).symm
  · rw [if_neg small, magnitude_normal (by omega)]
    by_cases inside : exponentOf x ≤ 1075
    · have exponent : (exponentOf x : ℤ) - 1075 = -((1075 - exponentOf x : ℕ) : ℤ) := by omega
      have power : (2 : ℚ) ^ ((exponentOf x : ℤ) - 1075) =
          ((2 ^ (1075 - exponentOf x) : ℕ) : ℚ)⁻¹ := by
        rw [exponent, zpow_neg, zpow_natCast, Nat.cast_pow, Nat.cast_ofNat]
      rw [if_pos inside, power, ← div_eq_mul_inv, Nat.floor_div_natCast, Nat.floor_natCast]
    · have exponent : (exponentOf x : ℤ) - 1075 = ((exponentOf x - 1075 : ℕ) : ℤ) := by omega
      have power : (2 : ℚ) ^ ((exponentOf x : ℤ) - 1075) = (2 ^ (exponentOf x - 1075) : ℕ) := by
        rw [exponent, zpow_natCast, Nat.cast_pow, Nat.cast_ofNat]
      rw [if_neg inside, power, ← Nat.cast_mul, Nat.floor_natCast]

def FitsInt (q : ℚ) : Prop := -2147483649 < q ∧ q < 2147483648

def integralPart (x : Double) : ℤ := if x.msb then -(⌊magnitude x⌋₊ : ℤ) else ⌊magnitude x⌋₊

theorem toInt_eq (x : Double) : toInt x =
    if -2147483648 ≤ integralPart x ∧ integralPart x ≤ 2147483647 then integralPart x
    else -2147483648 := by
  rw [toInt, toSize_eq_floor]
  rfl

theorem floor_magnitude_lt (x : Double) (n : ℕ) : ⌊magnitude x⌋₊ < n ↔ magnitude x < n :=
  Nat.floor_lt (magnitude_nonneg x)

theorem fitsInt_iff (x : Double) :
    FitsInt (realValue x) ↔ -2147483648 ≤ integralPart x ∧ integralPart x ≤ 2147483647 := by
  have nonneg := magnitude_nonneg x
  cases negative : x.msb with
  | true =>
      have bound := floor_magnitude_lt x 2147483649
      push_cast at bound
      simp only [FitsInt, realValue, integralPart, negative, if_true]
      constructor
      · rintro ⟨lower, _⟩
        have small := bound.mpr (by linarith)
        omega
      · rintro ⟨lower, _⟩
        have small := bound.mp (by omega)
        constructor
        · linarith
        · linarith
  | false =>
      have bound := floor_magnitude_lt x 2147483648
      push_cast at bound
      simp only [FitsInt, realValue, integralPart, negative, Bool.false_eq_true, if_false]
      constructor
      · rintro ⟨_, upper⟩
        have small := bound.mpr upper
        omega
      · rintro ⟨_, upper⟩
        have small := bound.mp (by omega)
        constructor
        · linarith
        · exact small

theorem abs_integralPart_sub (x : Double) :
    |(integralPart x : ℚ) - realValue x| = Int.fract |realValue x| := by
  have part := Nat.floor_le (magnitude_nonneg x)
  have fraction : Int.fract |realValue x| = magnitude x - ⌊magnitude x⌋₊ := by
    rw [abs_realValue, Int.fract, ← natCast_floor_eq_intCast_floor (magnitude_nonneg x)]
  rw [fraction]
  cases negative : x.msb with
  | true =>
      simp only [realValue, integralPart, negative, if_true, Int.cast_neg, Int.cast_natCast]
      rw [neg_sub_neg, abs_of_nonneg (sub_nonneg.mpr part)]
  | false =>
      simp only [realValue, integralPart, negative, Bool.false_eq_true, if_false, Int.cast_natCast]
      rw [abs_sub_comm, abs_of_nonneg (sub_nonneg.mpr part)]

/-- The conversion stays as close as six decimals exactly for a number that fits and has
almost no fraction. -/
theorem abs_toInt_sub_le_iff (x : Double) :
    |(toInt x : ℚ) - realValue x| ≤ 1 / 2000000 ↔
      FitsInt (realValue x) ∧ Int.fract |realValue x| ≤ 1 / 2000000 := by
  rw [toInt_eq]
  by_cases fits : FitsInt (realValue x)
  · rw [if_pos ((fitsInt_iff x).mp fits), abs_integralPart_sub, and_iff_right fits]
  · rw [if_neg fun range => fits ((fitsInt_iff x).mpr range)]
    constructor
    · intro close
      exfalso
      obtain ⟨below, above⟩ := abs_le.mp close
      apply fits
      push_cast at below above
      constructor
      · linarith
      · linarith
    · rintro ⟨inside, _⟩
      exact absurd inside fits

def asciiText (text : CString) : List Char := text.bytes.map fun b => Char.ofNat b.toNat

def numberChar (c : Char) : Bool := c.isDigit || c = '-' || c = '.'

theorem toNat_of_numberChar {c : Char} (h : numberChar c) : 0 < c.toNat ∧ c.toNat < 128 := by
  simp only [numberChar, Bool.or_eq_true, decide_eq_true_eq] at h
  rcases h with (digit | rfl) | rfl
  · have bounds := Char.isDigit_iff_toNat.mp digit
    have low : '0'.toNat = 48 := rfl
    have high : '9'.toNat = 57 := rfl
    omega
  · decide
  · decide

theorem utf8EncodeChar_of_numberChar {c : Char} (h : numberChar c) :
    String.utf8EncodeChar c = [c.toNat.toUInt8] := by
  have small : c.val ≤ 0x7F := by
    rw [UInt32.le_iff_toNat_le]
    exact Nat.le_of_lt_succ (toNat_of_numberChar h).2
  have size : c.utf8Size = 1 := by simp [Char.utf8Size, small]
  rw [String.utf8EncodeChar_eq_singleton size]
  rfl

theorem utf8_eq_map {text : String} (chars : ∀ c ∈ text.toList, numberChar c) :
    utf8 text = text.toList.map fun c => c.toNat.toUInt8 := by
  rw [utf8, List.map_eq_flatMap]
  apply List.flatMap_congr
  intro c member
  exact utf8EncodeChar_of_numberChar (chars c member)

theorem toNat_toUInt8 {c : Char} (h : numberChar c) : c.toNat.toUInt8.toNat = c.toNat := by
  have bounds := toNat_of_numberChar h
  exact Nat.mod_eq_of_lt (by omega)

theorem bytes_cString {text : String} (chars : ∀ c ∈ text.toList, numberChar c) :
    (cString text).bytes = text.toList.map fun c => c.toNat.toUInt8 := by
  have no_nul : ∀ b ∈ utf8 text, decide (b ≠ 0) = true := by
    rw [utf8_eq_map chars]
    intro b member
    obtain ⟨c, origin, rfl⟩ := List.mem_map.mp member
    have bounds := toNat_of_numberChar (chars c origin)
    have byte := toNat_toUInt8 (chars c origin)
    apply decide_eq_true
    intro zero
    rw [zero] at byte
    exact absurd byte.symm bounds.1.ne'
  show (utf8 text).takeWhile _ = _
  rw [List.takeWhile_eq_self_iff.mpr no_nul, utf8_eq_map chars]

theorem asciiText_cString {text : String} (chars : ∀ c ∈ text.toList, numberChar c) :
    asciiText (cString text) = text.toList := by
  rw [asciiText, bytes_cString chars, List.map_map]
  calc text.toList.map _ = text.toList.map id := by
        apply List.map_congr_left
        intro c member
        show Char.ofNat c.toNat.toUInt8.toNat = c
        rw [toNat_toUInt8 (chars c member), Char.ofNat_toNat]
    _ = text.toList := List.map_id _

theorem numberChar_of_mem_repr {n : ℕ} {c : Char} (h : c ∈ (Nat.repr n).toList) :
    numberChar c := by
  simp [numberChar, isDigit_of_mem_repr h]

theorem numberChar_of_mem_itoa {n : ℤ} {c : Char} (h : c ∈ (itoa n).toList) :
    c.isDigit ∨ c = '-' := by
  rw [itoa, toList_toString] at h
  rcases List.mem_append.mp h with sign | digit
  · split at sign
    · exact .inr (List.mem_singleton.mp sign)
    · exact absurd sign List.not_mem_nil
  · exact .inl (isDigit_of_mem_repr digit)

theorem asciiText_itoa (n : ℤ) : asciiText (cString (itoa n)) = (itoa n).toList := by
  apply asciiText_cString
  intro c member
  rcases numberChar_of_mem_itoa member with digit | rfl
  · simp [numberChar, digit]
  · decide

theorem natAbs_toInt_lt (x : Double) : (toInt x).natAbs < 10 ^ 10 := by
  rw [toInt_eq]
  split
  · omega
  · decide

theorem length_itoa_toInt (x : Double) : (itoa (toInt x)).toList.length ≤ 11 := by
  have digits : (Nat.repr (toInt x).natAbs).toList.length ≤ 10 := by
    rw [String.length_toList]
    exact (Nat.length_repr_le_iff (by decide)).mpr (natAbs_toInt_lt x)
  have sign : (if toInt x < 0 then ['-'] else []).length ≤ 1 := by
    split
    · exact le_rfl
    · exact Nat.zero_le 1
  rw [itoa, toList_toString, List.length_append]
  omega

theorem toList_sprintfF {x : Double} (finite : exponentOf x ≠ 2047) :
    ∃ whole decimals, (sprintfF x).toList = whole ++ '.' :: decimals ∧
      ∀ c ∈ whole ++ '.' :: decimals, numberChar c := by
  obtain ⟨n, text⟩ : ∃ n, sprintfF x =
      (if x.msb then "-" else "") ++ Nat.repr (n / 10 ^ 6) ++ "." ++
      String.ofList (List.replicate (6 - (Nat.repr (n % 10 ^ 6)).length) '0') ++
        Nat.repr (n % 10 ^ 6) := by
    rw [sprintfF]
    dsimp only
    rw [if_neg (show (x.extractLsb' 52 11).toNat ≠ 2047 from finite)]
    exact ⟨_, rfl⟩
  refine ⟨(if x.msb then "-" else "").toList ++ (Nat.repr (n / 10 ^ 6)).toList,
    List.replicate (6 - (Nat.repr (n % 10 ^ 6)).length) '0' ++ (Nat.repr (n % 10 ^ 6)).toList,
    ?_, ?_⟩
  · simp [text]
  · intro c member
    rcases List.mem_append.mp member with whole | decimals
    · rcases List.mem_append.mp whole with sign | digit
      · split at sign
        · cases List.mem_singleton.mp sign
          decide
        · exact absurd sign List.not_mem_nil
      · exact numberChar_of_mem_repr digit
    · rcases List.mem_cons.mp decimals with rfl | decimals
      · decide
      · rcases List.mem_append.mp decimals with zero | digit
        · cases List.eq_of_mem_replicate zero
          decide
        · exact numberChar_of_mem_repr digit

/-- The text of a default has a point or is as long as the buffer. -/
theorem asciiText_numericEnvar {x : Double} (finite : exponentOf x ≠ 2047) :
    '.' ∈ asciiText (numericEnvar x) ∨ (asciiText (numericEnvar x)).length = 23 := by
  obtain ⟨whole, decimals, text, chars⟩ := toList_sprintfF finite
  have printed : asciiText (numericEnvar x) = (whole ++ '.' :: decimals).take 23 := by
    have cut : (numericEnvar x) =
        cString (String.ofList ((whole ++ '.' :: decimals).take 23)) := by
      rw [numericEnvar, printfF, if_neg finite, text]
      rfl
    rw [cut, asciiText_cString, String.toList_ofList]
    rw [String.toList_ofList]
    exact fun c member => chars c (List.mem_of_mem_take member)
  rw [printed]
  by_cases short : whole.length < 23
  · left
    apply List.mem_take_iff_getElem.mpr
    refine ⟨whole.length, ?_, ?_⟩
    · simpa using short
    · simp
  · right
    rw [List.length_take, List.length_append]
    omega

def DenotesNumber (text : CString) (q : ℚ) : Prop :=
  ∃ r ∈ decimalNumber (asciiText text), |r - q| ≤ 1 / 2000000

theorem denotesNumber_itoa_iff (x : Double) :
    DenotesNumber (cString (itoa (toInt x))) (realValue x) ↔
    FitsInt (realValue x) ∧ Int.fract |realValue x| ≤ 1 / 2000000 := by
  have number : decimalNumber (asciiText (cString (itoa (toInt x)))) = some (toInt x : ℚ) := by
    rw [asciiText_itoa]
    exact decimalNumber_toString _
  rw [DenotesNumber, number, ← abs_toInt_sub_le_iff]
  simp

theorem itoa_ne_numericEnvar {x : Double} (finite : exponentOf x ≠ 2047) :
    cString (itoa (toInt x)) ≠ numericEnvar x := by
  intro same
  have text := asciiText_itoa (toInt x)
  rw [same] at text
  rcases asciiText_numericEnvar finite with point | long
  · rw [text] at point
    rcases numberChar_of_mem_itoa point with digit | sign
    · exact absurd digit (by decide)
    · exact absurd sign (by decide)
  · have short := length_itoa_toInt x
    rw [text] at long
    omega

def exportedText (platform : Platform) (fmu : FmuInstanceData) (environ : Environ)
    (e : FmiGatewayParameter) : Option CString :=
  (setEnvarRound platform fmu environ e).inherited.lookup (platform.key e.name)

/-- A command finds a text that denotes the number, the one a default would have. -/
structure NumberExported (platform : Platform) (fmu : FmuInstanceData) (environ : Environ)
    (e : FmiGatewayParameter) (x : Double) : Prop where
  denotes : ∃ text ∈ exportedText platform fmu environ e, DenotesNumber text (realValue x)
  same : exportedText platform fmu environ e = some (numericEnvar x)

theorem exportedText_real {platform : Platform} {fmu : FmuInstanceData} {environ : Environ}
    {e : FmiGatewayParameter} {x : Double} (real : e.type = .real)
    (held : scalarValue fmu e.vref = some x) (valid : ValidName e.name)
    (unset : getenv platform environ e.name = none) :
    exportedText platform fmu environ e = some (cString (itoa (toInt x))) := by
  have value : envText fmu e = cString (itoa (toInt x)) := by
    rw [envText, getFmuEnvValue, real]
    dsimp only
    rw [held]
    rfl
  rw [exportedText, setEnvarRound_of_none unset, value]
  cases platform with
  | unix =>
      rw [fmigatewaySetenv_unix valid]
      exact AList.lookup_insert _
  | win32 upcase =>
      rw [fmigatewaySetenv_win32 upcase valid]
      exact AList.lookup_insert _

/-- No number is exported like its default. The text denotes the number exactly when the
integral part fits and nearly no fraction is lost. -/
theorem numberExported_never {platform : Platform} {fmu : FmuInstanceData} {environ : Environ}
    {e : FmiGatewayParameter} {x : Double} (real : e.type = .real)
    (held : scalarValue fmu e.vref = some x) (finite : exponentOf x ≠ 2047)
    (valid : ValidName e.name) (unset : getenv platform environ e.name = none) :
    ¬ NumberExported platform fmu environ e x ∧
      ((∃ text ∈ exportedText platform fmu environ e, DenotesNumber text (realValue x)) ↔
        FitsInt (realValue x) ∧ Int.fract |realValue x| ≤ 1 / 2000000) := by
  have exported := exportedText_real real held valid unset
  constructor
  · intro whole
    apply itoa_ne_numericEnvar finite
    exact Option.some.inj (exported.symm.trans whole.same)
  · rw [exported, ← denotesNumber_itoa_iff]
    simp

def fractionParameter : FmiGatewayParameter :=
    ⟨"GAIN", "2", .real, numericEnvar 0x3FF8000000000000#64⟩

def fractionFmu : FmuInstanceData := hashmapSetDouble .null "2" 0x3FF8000000000000#64

/-- The number two is exported. -/
theorem numberExported_two :
    ¬ NumberExported .unix (hashmapSetDouble .null "2" 0x4000000000000000#64) ⟨∅, ∅⟩
        ⟨"GAIN", "2", .real, cString ""⟩ 0x4000000000000000#64 ∧
      ((∃ text ∈ exportedText .unix (hashmapSetDouble .null "2" 0x4000000000000000#64) ⟨∅, ∅⟩
          ⟨"GAIN", "2", .real, cString ""⟩, DenotesNumber text (realValue 0x4000000000000000#64)) ↔
        FitsInt (realValue 0x4000000000000000#64) ∧
          Int.fract |realValue 0x4000000000000000#64| ≤ 1 / 2000000) := by
  have finite : exponentOf 0x4000000000000000#64 ≠ 2047 := by decide
  have valid : ValidName "GAIN" := by decide
  exact numberExported_never rfl (scalarValue_hashmapSetDouble _ _ _) finite valid rfl

/-- One and a half is exported as one, and its default as one and a half. -/
theorem numberExported_fraction :
    exportedText .unix fractionFmu ⟨∅, ∅⟩ fractionParameter = some (cString "1") ∧
      fractionParameter.defaultValue = cString "1.500000" ∧
      ¬ NumberExported .unix fractionFmu ⟨∅, ∅⟩ fractionParameter 0x3FF8000000000000#64 := by
  have exported : exportedText .unix fractionFmu ⟨∅, ∅⟩ fractionParameter = some (cString "1") := by
    rfl
  have default : numericEnvar 0x3FF8000000000000#64 = cString "1.500000" := by decide +kernel
  refine ⟨exported, default, fun whole => ?_⟩
  have same := Option.some.inj (exported.symm.trans whole.same)
  rw [default] at same
  exact absurd same (by decide)

end DseFmi.FmiGateway
