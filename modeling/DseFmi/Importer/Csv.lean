import Mathlib.Data.List.Basic
import Mathlib.Data.List.TakeWhile
import Mathlib.Algebra.Order.Ring.Int
import Mathlib.Order.Defs.LinearOrder
import Mathlib.Tactic.Common

/-!
# Input samples

The importer sets input signals from a CSV file. The first line names the signals by value
reference, every following line starts with a timestamp. One line is read ahead; a negative
timestamp says that there is none.
-/

namespace DseFmi.Importer

def csvLineMaxlen : Nat := 1024

def csvDelimiter : List Char := [',', ';', '\n']

def isDelimiter (ch : Char) : Bool := ch ∈ csvDelimiter

def isSpace (ch : Char) : Bool := ch = ' ' || ('\t' ≤ ch && ch ≤ '\r')

/-- What a C string holds of the characters in its buffer. -/
def cString (buffer : List Char) : List Char := buffer.takeWhile (· ≠ '\x00')

/-- At most `room` characters, up to a newline and including it, and what is left. -/
def takeLine : Nat → List Char → List Char × List Char
  | 0, file => ([], file)
  | _ + 1, [] => ([], [])
  | room + 1, ch :: file =>
      if ch = '\n' then (['\n'], file)
      else ((ch :: (takeLine room file).1), (takeLine room file).2)

/-- Nothing at the end of the file, otherwise as much of a line as the buffer holds. -/
def fgets (size : Nat) (file : List Char) : Option (List Char × List Char) :=
  if file = [] then none else some (takeLine (size - 1) file)

/-- The tokens that `strtok_r` returns one after the other. -/
def strtok (line : List Char) : List (List Char) :=
  (line.splitOnP isDelimiter).filter fun token => !token.isEmpty

def leadingDigits (text : List Char) : Nat :=
  (text.takeWhile Char.isDigit).foldl (fun n ch => 10 * n + (ch.toNat - '0'.toNat)) 0

def signedDigits : List Char → Int
  | '-' :: digits => -leadingDigits digits
  | '+' :: digits => leadingDigits digits
  | digits => leadingDigits digits

def leadingInt (text : List Char) : Int := signedDigits (text.dropWhile isSpace)

/-- `strtol` ends at the bounds of a 64-bit number, of which the lower half is taken. -/
def atoi (text : List Char) : UInt32 :=
  UInt32.ofInt (max (-9223372036854775808) (min 9223372036854775807 (leadingInt text)))

/-- How numbers are read. Nothing is returned where the conversion sets `errno`. -/
structure Numbers (D : Type) [LinearOrder D] where
  zero : D
  minusOne : D
  minusOne_lt : minusOne < zero
  strtod : List Char → Option D
  /-- Reading stops at a delimiter that follows some text. -/
  strtod_stops : ∀ (text rest : List Char) (ch : Char), (∃ c ∈ text, isSpace c = false) →
    isDelimiter ch = true → strtod (text ++ ch :: rest) = strtod text

theorem leadingDigits_append {ch : Char} (other : ch.isDigit = false) (text rest : List Char) :
    leadingDigits (text ++ ch :: rest) = leadingDigits text := by
  have stops : (text ++ ch :: rest).takeWhile Char.isDigit = text.takeWhile Char.isDigit := by
    rw [List.takeWhile_append, List.takeWhile_cons_of_neg (by simp [other]), List.append_nil]
    split
    next all =>
      exact ((List.takeWhile_prefix _).eq_of_length all).symm
    · rfl
  rw [leadingDigits, stops, leadingDigits]

theorem signedDigits_append {ch : Char} (other : ch.isDigit = false) {text : List Char}
    (visible : text ≠ []) (rest : List Char) :
    signedDigits (text ++ ch :: rest) = signedDigits text := by
  cases text with
  | nil => exact absurd rfl visible
  | cons first digits =>
      by_cases minus : first = '-'
      · subst minus
        simp [signedDigits, leadingDigits_append other]
      · by_cases plus : first = '+'
        · subst plus
          simp [signedDigits, leadingDigits_append other]
        · have unsigned := leadingDigits_append other (first :: digits) rest
          rw [List.cons_append] at unsigned
          simp [signedDigits, minus, plus, unsigned]

theorem leadingInt_append {ch : Char} (other : ch.isDigit = false) {text : List Char}
    (nonblank : ∃ c ∈ text, isSpace c = false) (rest : List Char) :
    leadingInt (text ++ ch :: rest) = leadingInt text := by
  have visible : text.dropWhile isSpace ≠ [] := by
    intro all
    obtain ⟨c, member, nonblank⟩ := nonblank
    have blank := List.dropWhile_eq_nil_iff.mp all c member
    rw [nonblank] at blank
    cases blank
  have blanks : (text ++ ch :: rest).dropWhile isSpace = text.dropWhile isSpace ++ ch :: rest := by
    rw [List.dropWhile_append]
    simp [visible]
  rw [leadingInt, leadingInt, blanks]
  exact signedDigits_append other visible rest

theorem isDigit_of_isDelimiter {ch : Char} (delimiter : isDelimiter ch = true) :
    ch.isDigit = false := by
  have listed : ch = ',' ∨ ch = ';' ∨ ch = '\n' := by
    simpa [isDelimiter, csvDelimiter] using delimiter
  rcases listed with rfl | rfl | rfl <;> decide

theorem leadingInt_stops (text rest : List Char) (ch : Char)
    (nonblank : ∃ c ∈ text, isSpace c = false) (delimiter : isDelimiter ch = true) :
    some (leadingInt (text ++ ch :: rest)) = some (leadingInt text) := by
  rw [leadingInt_append (isDigit_of_isDelimiter delimiter) nonblank]

theorem minusOne_lt_zero : (-1 : Int) < 0 := by decide

/-- Whole numbers, read by their leading digits. -/
def decimal : Numbers Int where
  zero := 0
  minusOne := -1
  minusOne_lt := minusOne_lt_zero
  strtod text := some (leadingInt text)
  strtod_stops := leadingInt_stops

/-- `file` is what has not been read yet, `index` the positions of the signals in the array of
input values. -/
structure CsvDesc (D : Type) where
  file : List Char
  line : List Char
  timestamp : D
  index : List Nat
  deriving DecidableEq, Repr

variable {D : Type} [LinearOrder D] (numbers : Numbers D)

def csvOpen (content : List Char) : CsvDesc D where
  file := content
  line := []
  timestamp := numbers.zero
  index := []

theorem length_takeLine_le (room : Nat) (file : List Char) :
    (takeLine room file).2.length ≤ file.length := by
  induction room, file using takeLine.induct with
  | case1 => simp [takeLine]
  | case2 => simp [takeLine]
  | case3 => simp [takeLine]
  | case4 room ch file other ih =>
      rw [takeLine, if_neg other, List.length_cons]
      exact Nat.le_succ_of_le ih

theorem length_fgets_lt {file line rest : List Char}
    (read : fgets csvLineMaxlen file = some (line, rest)) : rest.length < file.length := by
  unfold fgets at read
  cases file with
  | nil => simp at read
  | cons ch file =>
      rw [if_neg (List.cons_ne_nil ch file), Option.some.injEq] at read
      obtain rfl : (takeLine (csvLineMaxlen - 1) (ch :: file)).2 = rest := by rw [read]
      have size : csvLineMaxlen - 1 = 1022 + 1 := rfl
      rw [size, takeLine]
      split
      · exact Nat.lt_succ_self _
      · exact Nat.lt_succ_of_le (length_takeLine_le 1022 file)

/-- The timestamp that ends the search for a line: not of an empty line, not where the
conversion fails, not a negative one. -/
def validTimestamp (line : List Char) : Option D :=
  if line.length = 0 then none else (numbers.strtod line).filter fun ts => numbers.zero ≤ ts

/-- The loop of `csv_read_line`, which is entered without a valid timestamp. -/
def readLines (c : CsvDesc D) : Bool × CsvDesc D :=
  match _read : fgets csvLineMaxlen c.file with
  | none => (false, c)
  | some (buffer, file) =>
      match validTimestamp numbers (cString buffer) with
      | some ts => (true, { c with file := file, line := cString buffer, timestamp := ts })
      | none => readLines { c with file := file, line := cString buffer }
termination_by c.file.length
decreasing_by exact length_fgets_lt _read

variable {numbers}

theorem readLines_end {c : CsvDesc D} (ended : fgets csvLineMaxlen c.file = none) :
    readLines numbers c = (false, c) := by
  rw [readLines, ended]

theorem readLines_valid {c : CsvDesc D} {buffer file : List Char} {ts : D}
    (got : fgets csvLineMaxlen c.file = some (buffer, file))
    (valid : validTimestamp numbers (cString buffer) = some ts) :
    readLines numbers c =
      (true, { c with file := file, line := cString buffer, timestamp := ts }) := by
  rw [readLines, got]
  simp only [valid]

theorem readLines_skip {c : CsvDesc D} {buffer file : List Char}
    (got : fgets csvLineMaxlen c.file = some (buffer, file))
    (invalid : validTimestamp numbers (cString buffer) = none) :
    readLines numbers c = readLines numbers { c with file := file, line := cString buffer } := by
  conv_lhs => rw [readLines, got]
  simp only [invalid]

theorem length_readLines_lt {c d : CsvDesc D} (read : readLines numbers c = (true, d)) :
    d.file.length < c.file.length := by
  induction c using readLines.induct numbers with
  | case1 c ended =>
      rw [readLines_end ended] at read
      cases read
  | case2 c buffer file got ts valid =>
      rw [readLines_valid got valid] at read
      cases read
      exact length_fgets_lt got
  | case3 c buffer file got invalid ih =>
      rw [readLines_skip got invalid] at read
      exact (ih read).trans (length_fgets_lt got)

variable (numbers)

def csvReadLine (c : CsvDesc D) : Bool × CsvDesc D :=
  readLines numbers { c with timestamp := numbers.minusOne }

/-- The columns are looked up one after the other. An unknown value reference ends the
program. -/
def indexColumns (rxVr : List UInt32) : List (List Char) → List Nat → Option (List Nat)
  | [], index => some index
  | vr :: columns, index =>
      if rxVr.length ≤ index.length then some index
      else
        match rxVr.idxOf? (atoi vr) with
        | none => none
        | some i => indexColumns rxVr columns (index ++ [i])

def csvIndex (rxVr : List UInt32) (c : CsvDesc D) : Option (CsvDesc D) :=
  let (line, file) := match fgets csvLineMaxlen c.file with
    | none => (c.line, c.file)
    | some (buffer, file) => (cString buffer, file)
  (indexColumns rxVr (strtok line).tail c.index).map fun index =>
    (csvReadLine numbers { c with file := file, line := line, index := index }).2

/-- A line that was applied: its timestamp and the texts behind it. -/
structure Sample (D : Type) where
  timestamp : D
  cells : List (List Char)
  deriving DecidableEq, Repr

/-- What a call of `_apply_samples` applied, and the values it left. -/
structure Applied (D : Type) where
  samples : List (Sample D)
  values : List D
  deriving DecidableEq, Repr

/-- A value that cannot be converted is only logged, and a value without a signal ignored. -/
def setSignal (values : List D) (v : Option D) (signal : Option Nat) : List D :=
  match v, signal with
  | some v, some signal => values.set signal v
  | _, _ => values

def applyCells (index : List Nat) : Nat → List (List Char) → List D → List D
  | _, [], values => values
  | idx, cell :: cells, values =>
      let applied := setSignal values (numbers.strtod cell) index[idx]?
      if index.length ≤ idx + 1 then applied else applyCells index (idx + 1) cells applied

theorem length_csvReadLine_lt {c d : CsvDesc D} (read : csvReadLine numbers c = (true, d)) :
    d.file.length < c.file.length := by
  have shorter := length_readLines_lt (d := d) read
  exact shorter

def applySamples (c : CsvDesc D) (values : List D) (simulationTime : D) :
    CsvDesc D × Applied D :=
  if numbers.zero ≤ c.timestamp ∧ c.timestamp ≤ simulationTime then
    let sample : Sample D := ⟨c.timestamp, (strtok c.line).tail⟩
    let values := applyCells numbers c.index 0 sample.cells values
    match _read : csvReadLine numbers c with
    | (false, c) => (c, ⟨[sample], values⟩)
    | (true, next) =>
        let (c, rest) := applySamples next values simulationTime
        (c, ⟨sample :: rest.samples, rest.values⟩)
  else (c, ⟨[], values⟩)
termination_by c.file.length
decreasing_by exact length_csvReadLine_lt numbers _read

variable {numbers}

theorem applySamples_idle {c : CsvDesc D} {simulationTime : D} (values : List D)
    (idle : ¬ (numbers.zero ≤ c.timestamp ∧ c.timestamp ≤ simulationTime)) :
    applySamples numbers c values simulationTime = (c, ⟨[], values⟩) := by
  rw [applySamples, if_neg idle]

theorem applySamples_last {c next : CsvDesc D} {simulationTime : D} (values : List D)
    (due : numbers.zero ≤ c.timestamp ∧ c.timestamp ≤ simulationTime)
    (read : csvReadLine numbers c = (false, next)) :
    applySamples numbers c values simulationTime =
      (next, ⟨[⟨c.timestamp, (strtok c.line).tail⟩],
        applyCells numbers c.index 0 (strtok c.line).tail values⟩) := by
  rw [applySamples, if_pos due, read]

theorem applySamples_next {c next : CsvDesc D} {simulationTime : D} (values : List D)
    (due : numbers.zero ≤ c.timestamp ∧ c.timestamp ≤ simulationTime)
    (read : csvReadLine numbers c = (true, next)) :
    applySamples numbers c values simulationTime =
      let rest := applySamples numbers next
        (applyCells numbers c.index 0 (strtok c.line).tail values) simulationTime
      (rest.1, ⟨⟨c.timestamp, (strtok c.line).tail⟩ :: rest.2.samples, rest.2.values⟩) := by
  conv_lhs => rw [applySamples, if_pos due, read]

variable (numbers)

def applyCalls (c : CsvDesc D) (values : List D) : List D → List (Applied D)
  | [] => []
  | time :: times =>
      let (next, applied) := applySamples numbers c values time
      applied :: applyCalls next applied.values times

end DseFmi.Importer
