import DseFmi.Importer.Csv

/-!
# Files of samples

A line is a text, followed by cells that are each preceded by a separator. The reader finds
the lines of a file one after the other, as long as they fit into its buffer.
-/

namespace DseFmi.Importer

structure CsvLine where
  first : List Char
  cells : List (Char × List Char)
  deriving DecidableEq, Repr

namespace CsvLine

def text (line : CsvLine) : List Char := line.first ++ line.cells.flatMap fun c => c.1 :: c.2

def texts (line : CsvLine) : List (List Char) := line.first :: line.cells.map Prod.snd

/-- No text is empty, contains a delimiter or ends a C string. -/
structure IsPlain (line : CsvLine) : Prop where
  nonempty : ∀ text ∈ line.texts, text ≠ []
  delimiter : ∀ text ∈ line.texts, ∀ ch ∈ text, isDelimiter ch = false
  terminator : ∀ text ∈ line.texts, ∀ ch ∈ text, ch ≠ '\x00'
  separator : ∀ c ∈ line.cells, c.1 = ',' ∨ c.1 = ';'

/-- The characters are looked up one by one, not all there are. -/
instance (line : CsvLine) : Decidable line.IsPlain :=
  have (text : List Char) : Decidable (∀ ch ∈ text, isDelimiter ch = false) :=
    List.decidableBAll _ _
  have (text : List Char) : Decidable (∀ ch ∈ text, ch ≠ '\x00') := List.decidableBAll _ _
  decidable_of_iff
    ((∀ text ∈ line.texts, text ≠ []) ∧ (∀ text ∈ line.texts, ∀ ch ∈ text, isDelimiter ch = false) ∧
      (∀ text ∈ line.texts, ∀ ch ∈ text, ch ≠ '\x00') ∧ ∀ c ∈ line.cells, c.1 = ',' ∨ c.1 = ';')
    ⟨fun ⟨nonempty, delimiter, terminator, separator⟩ =>
        ⟨nonempty, delimiter, terminator, separator⟩,
      fun ⟨nonempty, delimiter, terminator, separator⟩ =>
        ⟨nonempty, delimiter, terminator, separator⟩⟩

end CsvLine

def newline (ended : Bool) : List Char := if ended then ['\n'] else []

/-- The texts of the lines. Only the last one may lack its newline. -/
def lineTexts (ended : Bool) : List CsvLine → List (List Char)
  | [] => []
  | line :: lines => (line.text ++ newline (ended || !lines.isEmpty)) :: lineTexts ended lines

theorem isDelimiter_newline : isDelimiter '\n' = true := by decide

theorem isDelimiter_separator {ch : Char} (separator : ch = ',' ∨ ch = ';') :
    isDelimiter ch = true := by
  rcases separator with rfl | rfl <;> decide

theorem takeLine_newline {text : List Char} {room : Nat} (line : ∀ ch ∈ text, ch ≠ '\n')
    (fits : text.length < room) (rest : List Char) :
    takeLine room (text ++ '\n' :: rest) = (text ++ ['\n'], rest) := by
  induction text generalizing room with
  | nil =>
      obtain ⟨room, rfl⟩ : ∃ n, room = n + 1 := ⟨room - 1, by simp at fits; omega⟩
      simp [takeLine]
  | cons ch text ih =>
      obtain ⟨room, rfl⟩ : ∃ n, room = n + 1 := ⟨room - 1, by simp at fits; omega⟩
      have shorter : text.length < room := by simpa using fits
      have later := ih (fun ch member => line ch (List.mem_cons_of_mem _ member)) shorter
      simp [takeLine, line ch List.mem_cons_self, later]

theorem takeLine_end {text : List Char} {room : Nat} (line : ∀ ch ∈ text, ch ≠ '\n')
    (fits : text.length ≤ room) : takeLine room text = (text, []) := by
  induction text generalizing room with
  | nil => cases room <;> rfl
  | cons ch text ih =>
      obtain ⟨room, rfl⟩ : ∃ n, room = n + 1 := ⟨room - 1, by simp at fits; omega⟩
      have shorter : text.length ≤ room := by simpa using fits
      have later := ih (fun ch member => line ch (List.mem_cons_of_mem _ member)) shorter
      simp [takeLine, line ch List.mem_cons_self, later]

namespace CsvLine.IsPlain

variable {line : CsvLine} (plain : line.IsPlain)
include plain

theorem forall_text {q : Char → Prop} (texts : ∀ text ∈ line.texts, ∀ ch ∈ text, q ch)
    (separators : ∀ ch, ch = ',' ∨ ch = ';' → q ch) : ∀ ch ∈ line.text, q ch := by
  intro ch member
  rw [CsvLine.text, List.mem_append, List.mem_flatMap] at member
  rcases member with inFirst | ⟨cell, inCells, inCell⟩
  · exact texts line.first List.mem_cons_self ch inFirst
  · rcases List.mem_cons.mp inCell with rfl | inText
    · exact separators _ (plain.separator cell inCells)
    · exact texts cell.2 (List.mem_cons_of_mem _ (List.mem_map_of_mem inCells)) ch inText

theorem ne_newline : ∀ ch ∈ line.text, ch ≠ '\n' := by
  refine plain.forall_text (q := fun ch => ch ≠ '\n') ?_ ?_
  · intro text member ch inText same
    have free := plain.delimiter text member ch inText
    rw [same, isDelimiter_newline] at free
    cases free
  · rintro ch (rfl | rfl) <;> decide

theorem cString_text (ended : Bool) :
    cString (line.text ++ newline ended) = line.text ++ newline ended := by
  rw [cString, List.takeWhile_eq_self_iff]
  intro ch member
  rw [List.mem_append] at member
  rcases member with inText | inEnd
  · have kept := plain.forall_text plain.terminator
      (by rintro ch (rfl | rfl) <;> decide) ch inText
    simpa using kept
  · cases ended with
    | false => simp [newline] at inEnd
    | true =>
        obtain rfl : ch = '\n' := by simpa [newline] using inEnd
        decide

theorem text_ne_nil : line.text ≠ [] := by
  have first := plain.nonempty line.first List.mem_cons_self
  rw [CsvLine.text, Ne, List.append_eq_nil_iff]
  exact fun empty => first empty.1

theorem fgets_text {ended : Bool} {rest : List Char} (behind : ended = false → rest = [])
    (fits : (line.text ++ newline ended).length < csvLineMaxlen) :
    fgets csvLineMaxlen (line.text ++ newline ended ++ rest) =
      some (line.text ++ newline ended, rest) := by
  have room : csvLineMaxlen - 1 = 1023 := rfl
  have bound : csvLineMaxlen = 1024 := rfl
  have some_text : line.text ++ newline ended ++ rest ≠ [] := by simp [plain.text_ne_nil]
  rw [fgets, if_neg some_text, room]
  rw [bound, List.length_append] at fits
  cases ended with
  | false =>
      obtain rfl := behind rfl
      have all : line.text ++ newline false ++ [] = line.text := by simp [newline]
      rw [all, takeLine_end plain.ne_newline (by omega)]
      simp [newline]
  | true =>
      have one : (newline true).length = 1 := rfl
      have all : line.text ++ newline true ++ rest = line.text ++ '\n' :: rest := by
        simp [newline]
      rw [all, takeLine_newline plain.ne_newline (by omega)]
      simp [newline]

theorem strtok_text (ended : Bool) : strtok (line.text ++ newline ended) = line.texts := by
  obtain ⟨first, cells⟩ := line
  induction cells generalizing first with
  | nil =>
      have free := plain.delimiter first List.mem_cons_self
      have token := plain.nonempty first List.mem_cons_self
      cases ended with
      | false => simp [strtok, CsvLine.text, CsvLine.texts, newline,
          List.splitOnP_eq_singleton free, token]
      | true =>
          simp only [strtok, CsvLine.text, CsvLine.texts, newline, List.flatMap_nil,
            List.append_nil, if_true, List.map_nil]
          rw [List.splitOnP_append_cons_of_forall_mem free '\n' isDelimiter_newline]
          simp [token]
  | cons cell cells ih =>
      have free := plain.delimiter first List.mem_cons_self
      have token := plain.nonempty first List.mem_cons_self
      have later := ih cell.2
        { nonempty := fun text member => plain.nonempty text (List.mem_cons_of_mem _ member)
          delimiter := fun text member => plain.delimiter text (List.mem_cons_of_mem _ member)
          terminator := fun text member => plain.terminator text (List.mem_cons_of_mem _ member)
          separator := fun c member => plain.separator c (List.mem_cons_of_mem _ member) }
      have split := List.splitOnP_append_cons_of_forall_mem free cell.1
        (isDelimiter_separator (plain.separator cell List.mem_cons_self))
        (CsvLine.text ⟨cell.2, cells⟩ ++ newline ended)
      have text : CsvLine.text ⟨first, cell :: cells⟩ ++ newline ended =
          first ++ cell.1 :: (CsvLine.text ⟨cell.2, cells⟩ ++ newline ended) := by
        simp [CsvLine.text]
      rw [strtok, text, split, List.filter_cons]
      rw [strtok] at later
      simp [token, later, CsvLine.texts]

end CsvLine.IsPlain

variable {D : Type} [LinearOrder D] (numbers : Numbers D)

/-- A text that reads as a number, and not because what follows it does. -/
def Numbers.Numeric (text : List Char) : Prop :=
  (∃ ch ∈ text, isSpace ch = false) ∧ (numbers.strtod text).isSome = true

instance (text : List Char) : Decidable (numbers.Numeric text) :=
  have : Decidable (∃ ch ∈ text, isSpace ch = false) := List.decidableBEx _ _
  inferInstanceAs (Decidable (_ ∧ _))

def CsvLine.time (row : CsvLine) : D := (numbers.strtod row.first).getD numbers.minusOne

structure CsvLine.IsRow (columns : Nat) (row : CsvLine) : Prop where
  plain : row.IsPlain
  numeric : ∀ text ∈ row.texts, numbers.Numeric text
  complete : row.cells.length = columns

instance (columns : Nat) (row : CsvLine) : Decidable (row.IsRow numbers columns) :=
  decidable_of_iff
    (row.IsPlain ∧ (∀ text ∈ row.texts, numbers.Numeric text) ∧ row.cells.length = columns)
    ⟨fun ⟨plain, numeric, complete⟩ => ⟨plain, numeric, complete⟩,
      fun ⟨plain, numeric, complete⟩ => ⟨plain, numeric, complete⟩⟩

variable {numbers}

theorem CsvLine.IsRow.strtod_text {columns : Nat} {row : CsvLine}
    (isRow : row.IsRow numbers columns)
    (ended : Bool) : numbers.strtod (row.text ++ newline ended) = some (row.time numbers) := by
  obtain ⟨nonblank, reads⟩ := isRow.numeric row.first List.mem_cons_self
  have first : numbers.strtod row.first = some (row.time numbers) := by
    obtain ⟨ts, found⟩ := Option.isSome_iff_exists.mp reads
    rw [CsvLine.time, found, Option.getD_some]
  rw [← first, CsvLine.text]
  cases cells : row.cells with
  | nil =>
      cases ended with
      | false => simp [newline]
      | true =>
          have stops := numbers.strtod_stops row.first [] '\n' nonblank isDelimiter_newline
          simpa [newline] using stops
  | cons cell cells' =>
      have separator := isRow.plain.separator cell (by simp [cells])
      have stops := numbers.strtod_stops row.first
        (cell.2 ++ (cells'.flatMap fun c => c.1 :: c.2) ++ newline ended) cell.1 nonblank
        (isDelimiter_separator separator)
      simpa using stops

theorem CsvLine.IsRow.validTimestamp_text {columns : Nat} {row : CsvLine}
    (isRow : row.IsRow numbers columns) (ended : Bool) :
    validTimestamp numbers (row.text ++ newline ended) =
      if numbers.zero ≤ row.time numbers then some (row.time numbers) else none := by
  have longer : (row.text ++ newline ended).length ≠ 0 := by
    simp [isRow.plain.text_ne_nil]
  rw [validTimestamp, if_neg longer, isRow.strtod_text ended, Option.filter_some]
  simp

end DseFmi.Importer
