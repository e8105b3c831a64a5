import DseFmi.Importer.SampleValues
import DseFmi.Library.Releases

/-!
# What the reader finds in a text

A line that is longer than the buffer is read piece by piece, each piece as if it were a line.
The calls of a simulation release what is found, in the order of the text.
-/

namespace DseFmi.Importer

open DseFmi.Library

def splitLines : List Char → List (List Char)
  | [] => []
  | ch :: file =>
      if ch = '\n' then ['\n'] :: splitLines file
      else
        match splitLines file with
        | [] => [[ch]]
        | line :: lines => (ch :: line) :: lines

/-- What `fgets` reads of a line, one piece after the other. -/
def pieces : List Char → List (List Char)
  | [] => []
  | ch :: line => (ch :: line.take (csvLineMaxlen - 2)) :: pieces (line.drop (csvLineMaxlen - 2))
termination_by line => line.length
decreasing_by
  rw [List.length_drop, List.length_cons]
  omega

def buffers (file : List Char) : List (List Char) := (splitLines file).flatMap pieces

theorem pieces_nil : pieces [] = [] := by rw [pieces]

theorem pieces_of_ne_nil {line : List Char} (visible : line ≠ []) :
    pieces line = line.take (csvLineMaxlen - 1) :: pieces (line.drop (csvLineMaxlen - 1)) := by
  cases line with
  | nil => exact absurd rfl visible
  | cons ch line =>
      rw [pieces]
      rfl

theorem pieces_of_short {line : List Char} (visible : line ≠ [])
    (short : line.length ≤ csvLineMaxlen - 1) : pieces line = [line] := by
  rw [pieces_of_ne_nil visible, List.take_of_length_le short, List.drop_of_length_le short,
    pieces_nil]

theorem splitLines_newline (file : List Char) :
    splitLines ('\n' :: file) = ['\n'] :: splitLines file := if_pos rfl

theorem splitLines_last {ch : Char} (other : ch ≠ '\n') {file : List Char}
    (rest : splitLines file = []) : splitLines (ch :: file) = [[ch]] := by
  simp [splitLines, other, rest]

theorem splitLines_cons {ch : Char} (other : ch ≠ '\n') {file line : List Char}
    {lines : List (List Char)} (rest : splitLines file = line :: lines) :
    splitLines (ch :: file) = (ch :: line) :: lines := by
  simp [splitLines, other, rest]

theorem splitLines_eq_nil {file : List Char} (none : splitLines file = []) : file = [] := by
  cases file with
  | nil => rfl
  | cons ch file =>
      by_cases newline : ch = '\n'
      · rw [newline, splitLines_newline] at none
        cases none
      · cases rest : splitLines file with
        | nil =>
            rw [splitLines_last newline rest] at none
            cases none
        | cons line lines =>
            rw [splitLines_cons newline rest] at none
            cases none

theorem flatten_splitLines (file : List Char) : (splitLines file).flatten = file := by
  induction file with
  | nil => rfl
  | cons ch file ih =>
      by_cases newline : ch = '\n'
      · rw [newline, splitLines_newline, List.flatten_cons, ih]
        rfl
      · cases rest : splitLines file with
        | nil =>
            rw [splitLines_last newline rest, splitLines_eq_nil rest, List.flatten_singleton]
        | cons line lines =>
            rw [rest] at ih
            simpa [splitLines_cons newline rest] using ih

theorem ne_nil_of_mem_splitLines {file line : List Char} (member : line ∈ splitLines file) :
    line ≠ [] := by
  induction file generalizing line with
  | nil => exact absurd member List.not_mem_nil
  | cons ch file ih =>
      by_cases newline : ch = '\n'
      · rw [newline, splitLines_newline] at member
        rcases List.mem_cons.mp member with rfl | later
        · exact List.cons_ne_nil _ _
        · exact ih later
      · cases rest : splitLines file with
        | nil =>
            rw [splitLines_last newline rest, List.mem_singleton] at member
            rw [member]
            exact List.cons_ne_nil _ _
        | cons first lines =>
            rw [splitLines_cons newline rest] at member
            rcases List.mem_cons.mp member with rfl | later
            · exact List.cons_ne_nil _ _
            · exact ih (by rw [rest]; exact List.mem_cons_of_mem _ later)

section Text

variable {file line : List Char} {lines : List (List Char)}

theorem takeLine_splitLines (split : splitLines file = line :: lines) (room : Nat) :
    takeLine room file = (line.take room, line.drop room ++ lines.flatten) := by
  induction file generalizing line lines room with
  | nil => cases split
  | cons ch file ih =>
      cases room with
      | zero =>
          have all := flatten_splitLines (ch :: file)
          rw [split, List.flatten_cons] at all
          simp [takeLine, all]
      | succ room =>
          by_cases newline : ch = '\n'
          · subst newline
            rw [splitLines_newline] at split
            obtain ⟨rfl, rfl⟩ := List.cons.inj split
            simp [takeLine, flatten_splitLines]
          · cases rest : splitLines file with
            | nil =>
                obtain rfl := splitLines_eq_nil rest
                rw [splitLines_last newline rest] at split
                obtain ⟨rfl, rfl⟩ := List.cons.inj split
                cases room <;> simp [takeLine, newline]
            | cons first others =>
                rw [splitLines_cons newline rest] at split
                obtain ⟨rfl, rfl⟩ := List.cons.inj split
                simp [takeLine, newline, ih rest room]

theorem splitLines_drop (split : splitLines file = line :: lines) (k : Nat) :
    splitLines (line.drop k ++ lines.flatten) =
      if line.drop k = [] then lines else line.drop k :: lines := by
  induction file generalizing line lines k with
  | nil => cases split
  | cons ch file ih =>
      cases k with
      | zero =>
          have all := flatten_splitLines (ch :: file)
          have visible := ne_nil_of_mem_splitLines (split ▸ List.mem_cons_self)
          rw [split, List.flatten_cons] at all
          rw [List.drop_zero, all, split, if_neg visible]
      | succ k =>
          by_cases newline : ch = '\n'
          · subst newline
            rw [splitLines_newline] at split
            obtain ⟨rfl, rfl⟩ := List.cons.inj split
            simp [flatten_splitLines]
          · cases rest : splitLines file with
            | nil =>
                rw [splitLines_last newline rest] at split
                obtain ⟨rfl, rfl⟩ := List.cons.inj split
                simp [splitLines]
            | cons first others =>
                rw [splitLines_cons newline rest] at split
                obtain ⟨rfl, rfl⟩ := List.cons.inj split
                rw [List.drop_succ_cons]
                exact ih rest k

end Text

theorem fgets_eq_none {file : List Char} (ended : fgets csvLineMaxlen file = none) :
    buffers file = [] := by
  unfold fgets at ended
  split at ended
  next empty =>
    rw [empty]
    rfl
  next => cases ended

theorem fgets_eq_some {file buffer rest : List Char}
    (read : fgets csvLineMaxlen file = some (buffer, rest)) :
    buffers file = buffer :: buffers rest := by
  unfold fgets at read
  split at read
  · cases read
  next visible =>
    cases split : splitLines file with
    | nil => exact absurd (splitLines_eq_nil split) visible
    | cons line lines =>
        rw [takeLine_splitLines split, Option.some.injEq] at read
        obtain ⟨rfl, rfl⟩ := Prod.mk.inj read
        have first := ne_nil_of_mem_splitLines (split ▸ List.mem_cons_self)
        rw [buffers, buffers, splitLines_drop split, split, List.flatMap_cons,
          pieces_of_ne_nil first]
        split
        next empty => simp [empty, pieces_nil]
        next => simp

variable {D : Type} [LinearOrder D] (numbers : Numbers D)

def reading (buffer : List Char) : Option (Sample D) :=
  (validTimestamp numbers (cString buffer)).map fun ts => ⟨ts, (strtok (cString buffer)).tail⟩

def readings (file : List Char) : List (Sample D) := (buffers file).filterMap (reading numbers)

/-- The sample that was read ahead, and those behind it. -/
def waiting (c : CsvDesc D) : List (Sample D) :=
  if numbers.zero ≤ c.timestamp then
    ⟨c.timestamp, (strtok c.line).tail⟩ :: readings numbers c.file
  else []

variable {numbers}

theorem zero_le_of_validTimestamp {line : List Char} {ts : D}
    (valid : validTimestamp numbers line = some ts) : numbers.zero ≤ ts := by
  rw [validTimestamp] at valid
  split at valid
  · cases valid
  · exact of_decide_eq_true (Option.filter_eq_some_iff.mp valid).2

theorem readLines_readings (c : CsvDesc D) (sentinel : ¬ numbers.zero ≤ c.timestamp) :
    waiting numbers (readLines numbers c).2 = readings numbers c.file ∧
      (readLines numbers c).2.index = c.index ∧
      ((readLines numbers c).1 = true ↔ numbers.zero ≤ (readLines numbers c).2.timestamp) := by
  induction c using readLines.induct numbers with
  | case1 c ended =>
      rw [readLines_end ended, readings, fgets_eq_none ended, waiting, if_neg sentinel]
      simp [sentinel]
  | case2 c buffer file got ts valid =>
      have future := zero_le_of_validTimestamp valid
      have found : reading numbers buffer = some ⟨ts, (strtok (cString buffer)).tail⟩ := by
        rw [reading, valid]
        rfl
      rw [readLines_valid got valid, readings, fgets_eq_some got, waiting, if_pos future,
        List.filterMap_cons_some found]
      simp [readings, future]
  | case3 c buffer file got invalid ih =>
      have found : reading numbers buffer = none := by
        rw [reading, invalid]
        rfl
      rw [readLines_skip got invalid, readings, fgets_eq_some got,
        List.filterMap_cons_none found]
      exact ih sentinel

theorem csvReadLine_readings (c : CsvDesc D) :
    waiting numbers (csvReadLine numbers c).2 = readings numbers c.file ∧
      (csvReadLine numbers c).2.index = c.index ∧
      ((csvReadLine numbers c).1 = true ↔ numbers.zero ≤ (csvReadLine numbers c).2.timestamp) :=
  readLines_readings { c with timestamp := numbers.minusOne } (not_le.mpr numbers.minusOne_lt)

/-- A call applies the samples that are due, up to the first one that is not. -/
theorem applySamples_waiting (c : CsvDesc D) (values : List D) (time : D) :
    waiting numbers (applySamples numbers c values time).1 =
        (waiting numbers c).dropWhile (fun s => s.timestamp ≤ time) ∧
      (applySamples numbers c values time).1.index = c.index ∧
      (applySamples numbers c values time).2 =
        ⟨(waiting numbers c).takeWhile fun s => s.timestamp ≤ time,
          ((waiting numbers c).takeWhile fun s => s.timestamp ≤ time).foldl
            (fun values s => applyCells numbers c.index 0 s.cells values) values⟩ := by
  generalize queued : waiting numbers c = queue
  induction queue generalizing c values with
  | nil =>
      have sentinel : ¬ numbers.zero ≤ c.timestamp := by
        intro future
        rw [waiting, if_pos future] at queued
        cases queued
      rw [applySamples_idle values fun entered => sentinel entered.1]
      exact ⟨queued, rfl, rfl⟩
  | cons s queue ih =>
      have future : numbers.zero ≤ c.timestamp := by
        by_contra sentinel
        rw [waiting, if_neg sentinel] at queued
        cases queued
      have ahead := queued
      rw [waiting, if_pos future] at ahead
      obtain ⟨rfl, rest⟩ := List.cons.inj ahead
      by_cases due : c.timestamp ≤ time
      · obtain ⟨behind, index, more⟩ := @csvReadLine_readings _ _ numbers c
        rw [rest] at behind
        rcases read : csvReadLine numbers c with ⟨found, next⟩
        rw [read] at behind index more
        have same : next.index = c.index := index
        cases found with
        | false =>
            have sentinel : ¬ numbers.zero ≤ next.timestamp := fun later =>
              Bool.false_ne_true (more.mpr later)
            rw [waiting, if_neg sentinel] at behind
            rw [applySamples_last values ⟨future, due⟩ read, ← behind]
            simp [waiting, sentinel, due, same]
        | true =>
            obtain ⟨later, kept, applied⟩ := ih next
              (applyCells numbers c.index 0 (strtok c.line).tail values) behind
            rw [same] at kept applied
            rw [applySamples_next values ⟨future, due⟩ read]
            simp [due, later, kept, applied]
      · rw [applySamples_idle values fun entered => due entered.2]
        simp [queued, due]

theorem applyCalls_waiting (c : CsvDesc D) (values : List D) (times : List D) :
    (applyCalls numbers c values times).map Applied.samples =
      releases Sample.timestamp times (waiting numbers c) := by
  induction times generalizing c values with
  | nil => rfl
  | cons time times ih =>
      obtain ⟨later, _, now⟩ := applySamples_waiting c values time
      rw [applyCalls, releases, List.map_cons, ih, later, now]

end DseFmi.Importer
