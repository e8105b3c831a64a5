import Mathlib.Data.List.Nodup
import DseFmi.Importer.Samples

/-!
# When samples are applied

Over a simulation the rows of a sample file are applied in the order of the file, each with
the first call that has reached the timestamps up to it.
-/

namespace DseFmi.Importer

open DseFmi.Library

variable {D : Type} [LinearOrder D] (numbers : Numbers D)

/-- The value references of the input signals and their values, in arrays of one length. -/
structure RealInputs (D : Type) where
  vr : List UInt32
  val : List D
  same : vr.length = val.length

/-- The header names a signal in each cell behind its label. -/
structure SampleFile where
  header : CsvLine
  rows : List CsvLine
  ended : Bool
  deriving DecidableEq, Repr

namespace SampleFile

def content (f : SampleFile) : List Char := (lineTexts f.ended (f.header :: f.rows)).flatten

def headerText (f : SampleFile) : List Char :=
  f.header.text ++ newline (f.ended || !f.rows.isEmpty)

def columns (f : SampleFile) : List UInt32 := f.header.cells.map fun cell => atoi cell.2

/-- Nothing is said about the length of the header. -/
structure WellFormed (rxVr : List UInt32) (f : SampleFile) : Prop where
  header : f.header.IsPlain
  known : ∀ vr ∈ f.columns, vr ∈ rxVr
  distinct : f.columns.Nodup
  rows : Rows numbers f.columns.length f.ended f.rows

/-- The columns are looked up one by one, not all numbers of 32 bits. -/
instance (rxVr : List UInt32) (f : SampleFile) : Decidable (f.WellFormed numbers rxVr) :=
  have : Decidable (∀ vr ∈ f.columns, vr ∈ rxVr) := List.decidableBAll _ _
  decidable_of_iff
    (f.header.IsPlain ∧ (∀ vr ∈ f.columns, vr ∈ rxVr) ∧ f.columns.Nodup ∧
      Rows numbers f.columns.length f.ended f.rows)
    ⟨fun ⟨header, known, distinct, rows⟩ => ⟨header, known, distinct, rows⟩,
      fun ⟨header, known, distinct, rows⟩ => ⟨header, known, distinct, rows⟩⟩

end SampleFile

/-- The number of samples that the first calls have applied. -/
def appliedBy (calls : List (Applied D)) (k : Nat) : Nat :=
  ((calls.take k).flatMap Applied.samples).length

/-- What the calls at the given times do with the rows of a file. -/
structure AppliesSamples (f : SampleFile) (inputs : RealInputs D) (times : List D)
    (calls : List (Applied D)) : Prop where
  count : calls.length = times.length
  inOrder : calls.flatMap Applied.samples <+:
    (samplesOf numbers f.rows).map (CsvLine.sample numbers)
  when : ∀ (i k : Nat) (time : D), i < (samplesOf numbers f.rows).length → times[k]? = some time →
    (appliedBy calls k ≤ i ∧ i < appliedBy calls (k + 1) ↔
      latest (CsvLine.time numbers) (samplesOf numbers f.rows) i ≤ time ∧
        ∀ (j : Nat) (earlier : D), j < k → times[j]? = some earlier →
          ¬ latest (CsvLine.time numbers) (samplesOf numbers f.rows) i ≤ earlier)
  values : ∀ (k : Nat) (call : Applied D), calls[k]? = some call →
    ∀ (j : Nat) (vr : UInt32), f.columns[j]? = some vr →
    call.values[inputs.vr.idxOf vr]? =
      match ((samplesOf numbers f.rows).take (appliedBy calls (k + 1))).getLast? with
      | none => inputs.val[inputs.vr.idxOf vr]?
      | some row => row.cells[j]?.bind fun cell => numbers.strtod cell.2
  others : ∀ (k : Nat) (call : Applied D), calls[k]? = some call →
    ∀ i, i ∉ f.columns.map inputs.vr.idxOf →
    call.values[i]? = inputs.val[i]?

variable {numbers}

theorem indexColumns_known {rxVr : List UInt32} {columns : List (List Char)} {index : List Nat}
    (known : ∀ vr ∈ columns.map atoi, vr ∈ rxVr)
    (room : index.length + columns.length ≤ rxVr.length) :
    indexColumns rxVr columns index =
      some (index ++ columns.map fun vr => rxVr.idxOf (atoi vr)) := by
  induction columns generalizing index with
  | nil => simp [indexColumns]
  | cons vr columns ih =>
      rw [List.length_cons] at room
      have below : ¬ rxVr.length ≤ index.length := by omega
      rw [indexColumns, if_neg below, idxOf?_of_mem (known _ (by simp))]
      simp only
      rw [ih (fun v member => known v (by simpa using Or.inr (by simpa using member)))
        (by simp; omega)]
      simp

theorem indexColumns_unknown {rxVr : List UInt32} {columns : List (List Char)} {index : List Nat}
    {vr : List Char} (column : vr ∈ columns) (unknown : atoi vr ∉ rxVr)
    (room : index.length + columns.length ≤ rxVr.length) :
    indexColumns rxVr columns index = none := by
  induction columns generalizing index with
  | nil => exact absurd column List.not_mem_nil
  | cons first columns ih =>
      rw [List.length_cons] at room
      have below : ¬ rxVr.length ≤ index.length := by omega
      rw [indexColumns, if_neg below]
      cases found : rxVr.idxOf? (atoi first) with
      | none => rfl
      | some i =>
          rcases List.mem_cons.mp column with rfl | later
          · rw [List.idxOf?_eq_none_iff.mpr unknown] at found
            cases found
          · apply ih later
            simp only [List.length_append, List.length_singleton]
            omega

theorem csvIndex_ready {f : SampleFile} {rxVr : List UInt32}
    (wellFormed : f.WellFormed numbers rxVr) (short : f.headerText.length < csvLineMaxlen) :
    ∃ c, csvIndex numbers rxVr (csvOpen numbers f.content) = some c ∧
      c.index = f.columns.map rxVr.idxOf ∧
      Ready numbers f.columns.length f.ended c (samplesOf numbers f.rows) := by
  have plain := wellFormed.header
  have read : fgets csvLineMaxlen f.content =
      some (f.headerText, (lineTexts f.ended f.rows).flatten) := by
    rw [SampleFile.content, lineTexts, List.flatten_cons]
    apply plain.fgets_text _ short
    intro unended
    obtain ⟨-, empty⟩ := Bool.or_eq_false_iff.mp unended
    obtain none_left : f.rows = [] := by simpa using empty
    rw [none_left]
    rfl
  have names : (strtok (cString f.headerText)).tail = f.header.cells.map Prod.snd := by
    rw [SampleFile.headerText, plain.cString_text, plain.strtok_text]
    rfl
  have columns : (f.header.cells.map Prod.snd).map atoi = f.columns := by
    simp [SampleFile.columns]
  have room : f.columns.length ≤ rxVr.length :=
    wellFormed.distinct.length_le_of_subset wellFormed.known
  have index : indexColumns rxVr (f.header.cells.map Prod.snd) [] =
      some (f.columns.map rxVr.idxOf) := by
    rw [indexColumns_known (by rw [columns]; exact wellFormed.known)
      (by simpa [SampleFile.columns] using room), ← columns]
    simp
  obtain ⟨ready, kept, -⟩ := csvReadLine_ready
    (c := ⟨(lineTexts f.ended f.rows).flatten, cString f.headerText, numbers.zero,
      f.columns.map rxVr.idxOf⟩) wellFormed.rows rfl
  refine ⟨_, ?_, kept, ready⟩
  simp only [csvIndex, csvOpen, read, names, index]
  rfl

theorem applyCalls_releases {columns : Nat} {ended : Bool} {c : CsvDesc D} {queue : List CsvLine}
    (ready : Ready numbers columns ended c queue) (values : List D) (times : List D) :
    (applyCalls numbers c values times).map Applied.samples =
        (releases (CsvLine.time numbers) times queue).map (List.map (CsvLine.sample numbers)) ∧
      ∀ k call, (applyCalls numbers c values times)[k]? = some call →
        call.values = (((releases (CsvLine.time numbers) times queue).take (k + 1)).flatten).foldl
          (applyRow numbers c.index) values := by
  induction times generalizing c queue values with
  | nil => exact ⟨rfl, fun k call at_k => by simp [applyCalls] at at_k⟩
  | cons time times ih =>
      obtain ⟨next, index, applied⟩ := applySamples_ready ready values time
      obtain ⟨samples, later⟩ := ih next (applySamples numbers c values time).2.values
      rw [applyCalls, releases]
      constructor
      · rw [List.map_cons, List.map_cons, samples, applied]
      · intro k call at_k
        cases k with
        | zero =>
            obtain rfl : (applySamples numbers c values time).2 = call := by simpa using at_k
            rw [applied]
            simp
        | succ k =>
            have at_k : (applyCalls numbers (applySamples numbers c values time).1
                (applySamples numbers c values time).2.values times)[k]? = some call := by
              simpa using at_k
            rw [later k call at_k, index, applied]
            simp

section

variable {calls : List (Applied D)} {queue : List CsvLine} {times : List D}
  (samples : calls.map Applied.samples =
    (releases (CsvLine.time numbers) times queue).map (List.map (CsvLine.sample numbers)))
include samples

theorem flatMap_samples_take (k : Nat) :
    (calls.take k).flatMap Applied.samples =
      ((releases (CsvLine.time numbers) times queue).take k).flatten.map
        (CsvLine.sample numbers) := by
  rw [List.flatMap_def, List.map_take, samples, ← List.map_take, List.map_flatten]

theorem appliedBy_eq (k : Nat) :
    appliedBy calls k = ((releases (CsvLine.time numbers) times queue).take k).flatten.length := by
  rw [appliedBy, flatMap_samples_take samples, List.length_map]

theorem take_appliedBy (k : Nat) :
    queue.take (appliedBy calls k) =
      ((releases (CsvLine.time numbers) times queue).take k).flatten := by
  rw [appliedBy_eq samples]
  have taken : ((releases (CsvLine.time numbers) times queue).take k).flatten <+: queue := by
    have front : ((releases (CsvLine.time numbers) times queue).take k).flatten <+:
        (releases (CsvLine.time numbers) times queue).flatten := by
      conv_rhs => rw [← List.take_append_drop k (releases (CsvLine.time numbers) times queue),
        List.flatten_append]
      exact List.prefix_append _ _
    exact front.trans (flatten_releases_isPrefix times queue)
  exact (List.prefix_iff_eq_take.mp taken).symm

end

/-- For every well-formed file whose header fits into the buffer too. -/
theorem applyCalls_appliesSamples (numbers : Numbers D) (f : SampleFile) (inputs : RealInputs D)
    (times : List D) (wellFormed : f.WellFormed numbers inputs.vr)
    (short : f.headerText.length < csvLineMaxlen) (ordered : times.Pairwise (· ≤ ·)) :
    ∃ c, csvIndex numbers inputs.vr (csvOpen numbers f.content) = some c ∧
      AppliesSamples numbers f inputs times (applyCalls numbers c inputs.val times) := by
  obtain ⟨c, indexed, index, ready⟩ := csvIndex_ready wellFormed short
  obtain ⟨samples, values⟩ := applyCalls_releases ready inputs.val times
  have distinct : (f.columns.map inputs.vr.idxOf).Nodup := by
    apply wellFormed.distinct.map_on
    intro vr known vr' _ same
    exact (List.idxOf_inj (wellFormed.known vr known)).mp same
  have width : (f.columns.map inputs.vr.idxOf).length = f.columns.length := List.length_map _
  refine ⟨c, indexed, ?_, ?_, ?_, ?_, ?_⟩
  · simpa using congrArg List.length samples
  · have all := flatMap_samples_take samples times.length
    rw [List.take_of_length_le (by simpa using (congrArg List.length samples).le),
      List.take_of_length_le (by simp)] at all
    rw [all]
    exact (flatten_releases_isPrefix times _).map _
  · intro i k time entry call
    rw [appliedBy_eq samples, appliedBy_eq samples]
    exact released_iff ordered entry call
  · intro k call at_k j vr column
    have known : vr ∈ inputs.vr := wellFormed.known vr (List.mem_of_getElem? column)
    have position : (f.columns.map inputs.vr.idxOf)[j]? = some (inputs.vr.idxOf vr) := by
      rw [List.getElem?_map, column, Option.map_some]
    have inRange : inputs.vr.idxOf vr < inputs.val.length := by
      rw [← inputs.same]
      exact List.idxOf_lt_length_of_mem known
    have isRow : ∀ row ∈ (samplesOf numbers f.rows).take (appliedBy
        (applyCalls numbers c inputs.val times) (k + 1)),
        row.IsRow numbers (f.columns.map inputs.vr.idxOf).length := by
      intro row member
      rw [width]
      exact wellFormed.rows.isRow row (List.mem_of_mem_filter (List.mem_of_mem_take member))
    rw [values k call at_k, index, ← take_appliedBy samples]
    exact foldl_applyRow_at distinct isRow position inRange
  · intro k call at_k i other
    rw [values k call at_k, index]
    exact foldl_applyRow_other other _ _

/-- A row in the past, two that are due together with the last one, and one that comes late. -/
def sampleFile : SampleFile where
  header := ⟨"time".toList, [(';', "8".toList), (';', "0".toList)]⟩
  rows :=
    [⟨"-1".toList, [(';', "9".toList), (';', "9".toList)]⟩,
      ⟨"0".toList, [(';', "1".toList), (',', "2".toList)]⟩,
      ⟨"20".toList, [(';', "3".toList), (';', "4".toList)]⟩,
      ⟨"10".toList, [(';', "5".toList), (';', "6".toList)]⟩]
  ended := true

def sampleInputs : RealInputs Int where
  vr := [0, 8, 16]
  val := [0, 0, 7]
  same := rfl

theorem applyCalls_appliesSamples_threeCalls :
    ∃ c, csvIndex decimal sampleInputs.vr (csvOpen decimal sampleFile.content) = some c ∧
      AppliesSamples decimal sampleFile sampleInputs [0, 10, 20]
        (applyCalls decimal c sampleInputs.val [0, 10, 20]) := by
  have wellFormed : sampleFile.WellFormed decimal sampleInputs.vr := by decide
  have short : sampleFile.headerText.length < csvLineMaxlen := by decide
  have ordered : ([0, 10, 20] : List Int).Pairwise (· ≤ ·) := by decide
  exact applyCalls_appliesSamples decimal sampleFile sampleInputs [0, 10, 20] wellFormed short
    ordered

/-- 250 signals with value references of four digits, and one row for them. -/
def longHeader : SampleFile where
  header := ⟨['t'], (List.range 250).map fun i => (';', Nat.toDigits 10 (1000 + i))⟩
  rows := [⟨['0'], List.replicate 250 (';', ['1'])⟩]
  ended := true

def longHeaderVr : List UInt32 := (List.range 250).map fun i => UInt32.ofNat (1000 + i)

theorem longHeaderVr_nodup : longHeaderVr.Nodup := by
  apply List.nodup_range.map_on
  intro i below j below' same
  have values := congrArg UInt32.toNat same
  rw [List.mem_range] at below below'
  simp only [UInt32.toNat_ofNat'] at values
  omega

theorem longHeader_wellFormed : longHeader.WellFormed decimal longHeaderVr := by
  have columns : longHeader.columns = longHeaderVr := by decide +kernel
  constructor
  case header => decide +kernel
  case known =>
      intro vr column
      rwa [columns] at column
  case distinct =>
      rw [columns]
      exact longHeaderVr_nodup
  case rows => decide +kernel

/-- The header is cut inside of a column, and what is left of it is not known. -/
theorem csvIndex_longHeader : longHeader.WellFormed decimal longHeaderVr ∧
    csvIndex decimal longHeaderVr (csvOpen decimal longHeader.content) = none := by
  constructor
  · exact longHeader_wellFormed
  · have cut : ((fgets csvLineMaxlen longHeader.content).any fun result =>
        ['1'] ∈ (strtok (cString result.1)).tail ∧
          (strtok (cString result.1)).tail.length ≤ longHeaderVr.length) = true := by
      decide +kernel
    have unknown : atoi ['1'] ∉ longHeaderVr := by decide +kernel
    obtain ⟨⟨buffer, file⟩, read, left⟩ := (Option.any_eq_true _ _).mp cut
    obtain ⟨column, room⟩ := of_decide_eq_true left
    rw [csvIndex]
    simp only [csvOpen, read]
    rw [indexColumns_unknown column unknown (by simpa using room), Option.map_none]

end DseFmi.Importer
