import DseFmi.Importer.SampleValues
import DseFmi.Library.Releases

/-!
# Applying samples

The reader with its line read ahead is a queue of the rows with a non-negative timestamp, and
a call of `_apply_samples` releases the rows that are due.
-/

namespace DseFmi.Importer

open DseFmi.Library

variable {D : Type} [LinearOrder D] (numbers : Numbers D)

def CsvLine.sample (row : CsvLine) : Sample D := ⟨row.time numbers, row.cells.map Prod.snd⟩

def samplesOf (rows : List CsvLine) : List CsvLine :=
  rows.filter fun row => numbers.zero ≤ row.time numbers

structure Rows (columns : Nat) (ended : Bool) (rows : List CsvLine) : Prop where
  isRow : ∀ row ∈ rows, row.IsRow numbers columns
  short : ∀ text ∈ lineTexts ended rows, text.length < csvLineMaxlen

instance (columns : Nat) (ended : Bool) (rows : List CsvLine) :
    Decidable (Rows numbers columns ended rows) :=
  decidable_of_iff
    ((∀ row ∈ rows, row.IsRow numbers columns) ∧
      ∀ text ∈ lineTexts ended rows, text.length < csvLineMaxlen)
    ⟨fun ⟨isRow, short⟩ => ⟨isRow, short⟩, fun ⟨isRow, short⟩ => ⟨isRow, short⟩⟩

/-- The first row of the queue has been read ahead, the others are still in the file. -/
inductive Ready (columns : Nat) (ended : Bool) : CsvDesc D → List CsvLine → Prop where
  | done {c : CsvDesc D} (sentinel : c.timestamp = numbers.minusOne) : Ready columns ended c []
  | ahead {c : CsvDesc D} {row : CsvLine} {rows : List CsvLine}
      (timestamp : c.timestamp = row.time numbers) (valid : numbers.zero ≤ row.time numbers)
      (line : strtok c.line = row.texts) (file : c.file = (lineTexts ended rows).flatten)
      (rest : Rows numbers columns ended rows) :
      Ready columns ended c (row :: samplesOf numbers rows)

variable {numbers} {columns : Nat} {ended : Bool}

theorem Rows.tail {row : CsvLine} {rows : List CsvLine}
    (all : Rows numbers columns ended (row :: rows)) : Rows numbers columns ended rows where
  isRow := fun row member => all.isRow row (List.mem_cons_of_mem _ member)
  short := fun text member => all.short text (List.mem_cons_of_mem _ member)

theorem Rows.fgets_cons {row : CsvLine} {rows : List CsvLine}
    (all : Rows numbers columns ended (row :: rows)) :
    fgets csvLineMaxlen (lineTexts ended (row :: rows)).flatten =
      some (row.text ++ newline (ended || !rows.isEmpty), (lineTexts ended rows).flatten) := by
  rw [lineTexts, List.flatten_cons]
  apply (all.isRow row List.mem_cons_self).plain.fgets_text
  · intro unended
    obtain ⟨-, empty⟩ := Bool.or_eq_false_iff.mp unended
    obtain rfl : rows = [] := by simpa using empty
    rfl
  · exact all.short _ List.mem_cons_self

theorem readLines_ready {c : CsvDesc D} {rows : List CsvLine}
    (sentinel : c.timestamp = numbers.minusOne) (all : Rows numbers columns ended rows)
    (file : c.file = (lineTexts ended rows).flatten) :
    Ready numbers columns ended (readLines numbers c).2 (samplesOf numbers rows) ∧
      (readLines numbers c).2.index = c.index ∧
      (readLines numbers c).1 = !(samplesOf numbers rows).isEmpty := by
  induction rows generalizing c with
  | nil =>
      have finished : fgets csvLineMaxlen c.file = none := by rw [file]; rfl
      rw [readLines_end finished]
      exact ⟨.done sentinel, rfl, rfl⟩
  | cons row rows ih =>
      have isRow := all.isRow row List.mem_cons_self
      have got := all.fgets_cons
      rw [← file] at got
      have valid := isRow.validTimestamp_text (ended || !rows.isEmpty)
      rw [← isRow.plain.cString_text] at valid
      by_cases future : numbers.zero ≤ row.time numbers
      · rw [if_pos future] at valid
        have kept : samplesOf numbers (row :: rows) = row :: samplesOf numbers rows := by
          simp [samplesOf, future]
        rw [readLines_valid got valid, kept]
        refine ⟨.ahead rfl future ?_ rfl all.tail, rfl, rfl⟩
        rw [isRow.plain.cString_text, isRow.plain.strtok_text]
      · rw [if_neg future] at valid
        have skipped : samplesOf numbers (row :: rows) = samplesOf numbers rows := by
          simp [samplesOf, future]
        rw [readLines_skip got valid, skipped]
        exact ih sentinel all.tail rfl

theorem csvReadLine_ready {c : CsvDesc D} {rows : List CsvLine}
    (all : Rows numbers columns ended rows) (file : c.file = (lineTexts ended rows).flatten) :
    Ready numbers columns ended (csvReadLine numbers c).2 (samplesOf numbers rows) ∧
      (csvReadLine numbers c).2.index = c.index ∧
      (csvReadLine numbers c).1 = !(samplesOf numbers rows).isEmpty :=
  readLines_ready (c := { c with timestamp := numbers.minusOne }) rfl all file

theorem applySamples_ready {c : CsvDesc D} {queue : List CsvLine}
    (ready : Ready numbers columns ended c queue) (values : List D) (time : D) :
    Ready numbers columns ended (applySamples numbers c values time).1
        (queue.dropWhile fun row => row.time numbers ≤ time) ∧
      (applySamples numbers c values time).1.index = c.index ∧
      (applySamples numbers c values time).2 =
        ⟨(queue.takeWhile fun row => row.time numbers ≤ time).map (CsvLine.sample numbers),
          (queue.takeWhile fun row => row.time numbers ≤ time).foldl (applyRow numbers c.index)
            values⟩ := by
  induction queue generalizing c values with
  | nil =>
      cases ready with
      | done sentinel =>
          have idle : ¬ (numbers.zero ≤ c.timestamp ∧ c.timestamp ≤ time) := by
            rw [sentinel]
            exact fun entered => absurd entered.1 (not_le.mpr numbers.minusOne_lt)
          rw [applySamples_idle values idle]
          exact ⟨.done sentinel, rfl, rfl⟩
  | cons row queue ih =>
      generalize heads : row :: queue = all at ready
      cases ready with
      | done => cases heads
      | @ahead row' rows timestamp valid line file rest =>
          obtain ⟨rfl, rfl⟩ := List.cons.inj heads
          by_cases due : row.time numbers ≤ time
          · have entered : numbers.zero ≤ c.timestamp ∧ c.timestamp ≤ time := by
              rw [timestamp]
              exact ⟨valid, due⟩
            obtain ⟨ready, index, more⟩ := csvReadLine_ready rest file
            have cells : (strtok c.line).tail = row.cells.map Prod.snd := by rw [line]; rfl
            rcases read : csvReadLine numbers c with ⟨found, next⟩
            rw [read] at ready more
            have index : next.index = c.index := by rw [read] at index; exact index
            cases found with
            | false =>
                have none_left : samplesOf numbers rows = [] := by simpa using more.symm
                rw [applySamples_last values entered read, none_left, cells, timestamp]
                rw [none_left] at ready
                simpa [due, applyRow, CsvLine.sample, index] using ready
            | true =>
                obtain ⟨ready, kept, applied⟩ := ih ready (applyRow numbers c.index values row)
                rw [index] at kept applied
                rw [applySamples_next values entered read, cells, timestamp]
                simp only [applyRow] at applied kept ready
                simpa [due, applyRow, CsvLine.sample, applied, kept] using ready
          · have later : ¬ (numbers.zero ≤ c.timestamp ∧ c.timestamp ≤ time) := by
              rw [timestamp]
              exact fun entered => due entered.2
            rw [applySamples_idle values later, List.dropWhile_cons_of_neg (by simpa using due),
              List.takeWhile_cons_of_neg (by simpa using due)]
            exact ⟨.ahead timestamp valid line file rest, rfl, rfl⟩

end DseFmi.Importer
