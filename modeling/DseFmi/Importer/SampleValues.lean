import Mathlib.Data.List.Induction
import DseFmi.Importer.SampleFile

/-!
# The values that samples leave

A row sets each indexed signal from its own cell and no other signal, so that a sequence of
rows leaves the values of its last row.
-/

namespace DseFmi.Importer

variable {D : Type} [LinearOrder D] {numbers : Numbers D}

def applyCell (numbers : Numbers D) (values : List D) (entry : Nat × List Char) : List D :=
  setSignal values (numbers.strtod entry.2) (some entry.1)

def applyRow (numbers : Numbers D) (index : List Nat) (values : List D) (row : CsvLine) : List D :=
  applyCells numbers index 0 (row.cells.map Prod.snd) values

theorem idxOf?_of_mem {rxVr : List UInt32} {vr : UInt32} (known : vr ∈ rxVr) :
    rxVr.idxOf? vr = some (rxVr.idxOf vr) :=
  List.findIdx?_eq_some_of_exists ⟨vr, known, by simp⟩

/-- Cells behind the last column are left out, and columns behind the last cell. -/
theorem applyCells_eq (index : List Nat) (idx : Nat) (cells : List (List Char))
    (values : List D) :
    applyCells numbers index idx cells values =
      ((index.drop idx).zip cells).foldl (applyCell numbers) values := by
  induction cells generalizing idx values with
  | nil => simp [applyCells]
  | cons cell cells ih =>
      rw [applyCells]
      by_cases column : idx < index.length
      · have head : setSignal values (numbers.strtod cell) index[idx]? =
            applyCell numbers values (index[idx], cell) := by
          rw [List.getElem?_eq_getElem column, applyCell]
        rw [List.drop_eq_getElem_cons column, List.zip_cons_cons, List.foldl_cons, ← ih, head]
        split
        · have last : index.drop (idx + 1) = [] := List.drop_of_length_le (by omega)
          rw [ih, last]
          rfl
        · rfl
      · have behind : index.drop idx = [] := List.drop_of_length_le (by omega)
        have limit : index.length ≤ idx + 1 := by omega
        have unknown : index[idx]? = none := List.getElem?_eq_none (by omega)
        rw [behind, if_pos limit, unknown]
        cases numbers.strtod cell <;> rfl

@[simp] theorem length_applyCell (values : List D) (entry : Nat × List Char) :
    (applyCell numbers values entry).length = values.length := by
  unfold applyCell
  cases numbers.strtod entry.2 <;> simp [setSignal]

theorem applyCell_other {values : List D} {entry : Nat × List Char} {i : Nat}
    (other : i ≠ entry.1) : (applyCell numbers values entry)[i]? = values[i]? := by
  unfold applyCell
  cases numbers.strtod entry.2 with
  | none => rfl
  | some v => exact List.getElem?_set_ne (Ne.symm other)

theorem applyCell_self {values : List D} {entry : Nat × List Char} {v : D}
    (inRange : entry.1 < values.length) (reads : numbers.strtod entry.2 = some v) :
    (applyCell numbers values entry)[entry.1]? = some v := by
  simp [applyCell, reads, setSignal, inRange]

theorem foldl_applyCell_other {entries : List (Nat × List Char)} {values : List D} {i : Nat}
    (other : ∀ entry ∈ entries, i ≠ entry.1) :
    (entries.foldl (applyCell numbers) values)[i]? = values[i]? := by
  induction entries generalizing values with
  | nil => rfl
  | cons entry entries ih =>
      rw [List.foldl_cons, ih fun e member => other e (List.mem_cons_of_mem _ member)]
      exact applyCell_other (other entry List.mem_cons_self)

theorem foldl_applyCell_at {entries : List (Nat × List Char)} {values : List D}
    (distinct : (entries.map Prod.fst).Nodup) {entry : Nat × List Char} (member : entry ∈ entries)
    (inRange : entry.1 < values.length) {v : D} (reads : numbers.strtod entry.2 = some v) :
    (entries.foldl (applyCell numbers) values)[entry.1]? = some v := by
  induction entries generalizing values with
  | nil => cases member
  | cons e entries ih =>
      obtain ⟨fresh, distinct⟩ := List.nodup_cons.mp distinct
      rw [List.foldl_cons]
      rcases List.mem_cons.mp member with rfl | later
      · have others : ∀ e' ∈ entries, entry.1 ≠ e'.1 := by
          intro e' inRest same
          apply fresh
          rw [same]
          exact List.mem_map_of_mem inRest
        rw [foldl_applyCell_other others]
        exact applyCell_self inRange reads
      · exact ih distinct later (by simpa using inRange)

@[simp] theorem length_applyRow (index : List Nat) (values : List D) (row : CsvLine) :
    (applyRow numbers index values row).length = values.length := by
  rw [applyRow, applyCells_eq]
  generalize (index.drop 0).zip (row.cells.map Prod.snd) = entries
  induction entries generalizing values with
  | nil => rfl
  | cons entry entries ih => rw [List.foldl_cons, ih, length_applyCell]

@[simp] theorem length_foldl_applyRow (index : List Nat) (rows : List CsvLine) (values : List D) :
    (rows.foldl (applyRow numbers index) values).length = values.length := by
  induction rows generalizing values with
  | nil => rfl
  | cons row rows ih => rw [List.foldl_cons, ih, length_applyRow]

theorem applyRow_other {index : List Nat} {i : Nat} (other : i ∉ index) (values : List D)
    (row : CsvLine) : (applyRow numbers index values row)[i]? = values[i]? := by
  rw [applyRow, applyCells_eq]
  apply foldl_applyCell_other
  intro entry member same
  apply other
  rw [same]
  exact (List.of_mem_zip member).1

/-- An indexed position gets the value of the cell in its column. -/
theorem applyRow_at {index : List Nat} (distinct : index.Nodup) {row : CsvLine}
    (isRow : row.IsRow numbers index.length) {values : List D} {i j : Nat}
    (column : index[j]? = some i) (inRange : i < values.length) :
    (applyRow numbers index values row)[i]? =
      row.cells[j]?.bind fun cell => numbers.strtod cell.2 := by
  obtain ⟨inIndex, at_j⟩ := List.getElem?_eq_some_iff.mp column
  have width := isRow.complete
  have inCells : j < row.cells.length := by omega
  have cell : row.cells[j]? = some row.cells[j] := List.getElem?_eq_getElem inCells
  have text : row.cells[j].2 ∈ row.texts :=
    List.mem_cons_of_mem _ (List.mem_map_of_mem (List.getElem_mem inCells))
  obtain ⟨v, reads⟩ := Option.isSome_iff_exists.mp (isRow.numeric _ text).2
  have member : (i, row.cells[j].2) ∈ index.zip (row.cells.map Prod.snd) := by
    apply List.mem_of_getElem? (i := j)
    rw [List.getElem?_zip_eq_some]
    simp [column, cell]
  have keys : ((index.zip (row.cells.map Prod.snd)).map Prod.fst).Nodup := by
    rw [List.map_fst_zip (by simp [width])]
    exact distinct
  rw [applyRow, applyCells_eq, List.drop_zero, cell, Option.bind_some, reads]
  exact foldl_applyCell_at keys member inRange reads

/-- After some rows an indexed position holds the value of the last one. -/
theorem foldl_applyRow_at {index : List Nat} (distinct : index.Nodup) {rows : List CsvLine}
    (all : ∀ row ∈ rows, row.IsRow numbers index.length) {values : List D} {i j : Nat}
    (column : index[j]? = some i) (inRange : i < values.length) :
    (rows.foldl (applyRow numbers index) values)[i]? =
      match rows.getLast? with
      | none => values[i]?
      | some row => row.cells[j]?.bind fun cell => numbers.strtod cell.2 := by
  rcases List.eq_nil_or_concat' rows with rfl | ⟨earlier, row, rfl⟩
  · rfl
  · have longer : i < (earlier.foldl (applyRow numbers index) values).length := by
      rw [length_foldl_applyRow]
      exact inRange
    rw [List.foldl_append, List.getLast?_append, List.foldl_cons, List.foldl_nil]
    exact applyRow_at distinct (all row (by simp)) column longer

theorem foldl_applyRow_other {index : List Nat} {i : Nat} (other : i ∉ index)
    (rows : List CsvLine) (values : List D) :
    (rows.foldl (applyRow numbers index) values)[i]? = values[i]? := by
  induction rows generalizing values with
  | nil => rfl
  | cons row rows ih => rw [List.foldl_cons, ih, applyRow_other other]

end DseFmi.Importer
