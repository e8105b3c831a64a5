import DseFmi.Importer.FieldColumns

/-!
# Texts whose fields are followed

The reader follows the fields of a text exactly when it reads the references of the header,
and of each line the timestamp and the columns at their places.
-/

namespace DseFmi.Importer

open DseFmi.Library

variable {D : Type} [LinearOrder D] {numbers : Numbers D} {format : NumberFormat}

theorem isNumber_nil : format.isNumber [] = false := by
  cases number : format.isNumber [] with
  | false => rfl
  | true =>
      obtain ⟨ch, member, _⟩ := format.nonblank [] number
      cases member

@[simp] theorem fieldValue_nil : fieldValue numbers format [] = none := by
  simp [fieldValue, isNumber_nil]

theorem strtod_eq_fieldValue_iff {field : List Char} :
    numbers.strtod field = fieldValue numbers format field ↔
      format.isNumber field = true ∨ numbers.strtod field = none := by
  unfold fieldValue
  cases format.isNumber field <;> simp

theorem getElem?_columnValues {convert : List Char → Option D} {n k : Nat} (column : k < n)
    (cells : List (List Char)) :
    (columnValues convert n cells)[k]? = some (cells[k]?.bind convert) := by
  induction n generalizing k cells with
  | zero => omega
  | succ n ih =>
      cases k with
      | zero => cases cells <;> simp [columnValues]
      | succ k =>
          have below : k < n := by omega
          cases cells with
          | nil => simp [columnValues, ih below]
          | cons cell cells => simp [columnValues, ih below]

omit [LinearOrder D] in
@[simp] theorem length_columnValues (convert : List Char → Option D) (n : Nat)
    (cells : List (List Char)) : (columnValues convert n cells).length = n := by
  induction n generalizing cells with
  | zero => rfl
  | succ n ih => cases cells <;> simp [columnValues, ih]

theorem columnValues_congr_iff {f g : List Char → Option D} {n : Nat}
    {cells others : List (List Char)} :
    columnValues f n cells = columnValues g n others ↔
      ∀ k < n, cells[k]?.bind f = others[k]?.bind g := by
  constructor
  · intro same k column
    have at_k := congrArg (·[k]?) same
    simpa [getElem?_columnValues column] using at_k
  · intro same
    apply List.ext_getElem?
    intro k
    by_cases column : k < n
    · rw [getElem?_columnValues column, getElem?_columnValues column, same k column]
    · rw [List.getElem?_eq_none (by simp; omega), List.getElem?_eq_none (by simp; omega)]

/-- A field that is not empty is no further back among such fields. -/
theorem mem_take_filter {p : List Char → Bool} {rest : List (List Char)} {k : Nat}
    {field : List Char} (found : rest[k]? = some field) (passes : p field = true) :
    field ∈ (rest.filter p).take (k + 1) := by
  induction rest generalizing k with
  | nil => cases found
  | cons first rest ih =>
      cases k with
      | zero =>
          obtain rfl : first = field := by simpa using found
          simp [passes]
      | succ k =>
          have later := ih (k := k) (by simpa using found)
          cases here : p first with
          | false =>
              rw [List.filter_cons_of_neg (by simp [here])]
              exact List.take_subset_take_left _ (by omega) later
          | true =>
              rw [List.filter_cons_of_pos here, List.take_succ_cons]
              exact List.mem_cons_of_mem _ later

theorem fieldValue_eq_none {field : List Char} (none : numbers.strtod field = .none) :
    fieldValue numbers format field = .none := by
  simp [fieldValue, none]

/-- Where the tokens of the first columns cannot be converted, the fields have no values. -/
theorem bind_fieldValue_eq_none {rest : List (List Char)} {n k : Nat} (column : k < n)
    (none : ∀ cell ∈ (rest.filter fun field => !field.isEmpty).take n,
      numbers.strtod cell = .none) : rest[k]?.bind (fieldValue numbers format) = .none := by
  cases found : rest[k]? with
  | none => rfl
  | some field =>
      rw [Option.bind_some]
      cases field with
      | nil => exact fieldValue_nil
      | cons ch field =>
          apply fieldValue_eq_none
          apply none
          exact List.take_subset_take_left _ column (mem_take_filter found rfl)

theorem forall_mem_take_iff {cells : List (List Char)} {n : Nat} :
    (∀ cell ∈ cells.take n, numbers.strtod cell = none) ↔
      ∀ k < n, cells[k]?.bind numbers.strtod = none := by
  constructor
  · intro all k column
    cases found : cells[k]? with
    | none => rfl
    | some cell =>
        apply all
        exact List.mem_of_getElem? (i := k) (by rw [List.getElem?_take_of_lt column, found])
  · intro all cell member
    obtain ⟨k, inRange, rfl⟩ := List.mem_take_iff_getElem.mp member
    have column := all k (by omega)
    rwa [List.getElem?_eq_getElem (by omega)] at column

/-- Behind an empty field, the texts that move forward must not be converted. -/
theorem columnsRead_nil_cons_iff {n : Nat} {rest : List (List Char)} :
    columnValues numbers.strtod (n + 1) (rest.filter fun field => !field.isEmpty) =
        columnValues (fieldValue numbers format) (n + 1) ([] :: rest) ↔
      ∀ cell ∈ (rest.filter fun field => !field.isEmpty).take (n + 1),
        numbers.strtod cell = none := by
  rw [columnValues_congr_iff]
  constructor
  · intro same
    rw [forall_mem_take_iff]
    intro k
    induction k using Nat.strong_induction_on with
    | _ k ih =>
        intro column
        rw [same k column]
        cases k with
        | zero => simp
        | succ k =>
            rw [List.getElem?_cons_succ]
            apply bind_fieldValue_eq_none (Nat.lt_succ_self k)
            rw [forall_mem_take_iff]
            intro j before
            exact ih j before (by omega)
  · intro none k column
    rw [forall_mem_take_iff.mp none k column]
    cases k with
    | zero => simp
    | succ k =>
        rw [List.getElem?_cons_succ]
        exact (bind_fieldValue_eq_none (by omega) none).symm

/-- The tokens have the values of the fields in the first columns exactly when the columns are
read. -/
theorem columnsRead_iff {n : Nat} {rest : List (List Char)} :
    columnValues numbers.strtod n (rest.filter fun field => !field.isEmpty) =
        columnValues (fieldValue numbers format) n rest ↔
      ColumnsRead numbers format n rest := by
  induction n generalizing rest with
  | zero => simp [columnValues, ColumnsRead]
  | succ n ih =>
      cases rest with
      | nil =>
          simp only [ColumnsRead, iff_true, List.filter_nil]
          rw [columnValues_congr_iff]
          simp
      | cons field rest =>
          cases field with
          | nil =>
              rw [ColumnsRead, ← @columnsRead_nil_cons_iff _ _ _ format _ _]
              simp
          | cons ch field =>
              rw [ColumnsRead, ← ih, ← strtod_eq_fieldValue_iff]
              · simp [columnValues]
              · simp

/-- A text without newlines, and perhaps a newline behind it. -/
structure IsLine (line : List Char) : Prop where
  visible : line ≠ []
  content : ∃ ended, line = lineContent line ++ newline ended

theorem lineContent_append {content : List Char} (one : ∀ ch ∈ content, ch ≠ '\n')
    (ended : Bool) : lineContent (content ++ newline ended) = content := by
  have all : content.takeWhile (· ≠ '\n') = content := by
    rw [List.takeWhile_eq_self_iff]
    intro ch member
    simpa using one ch member
  rw [lineContent, List.takeWhile_append, all]
  cases ended <;> simp [newline]

theorem isLine_of_mem_splitLines {file line : List Char} (member : line ∈ splitLines file) :
    IsLine line := by
  have content : ∃ content ended, (∀ ch ∈ content, ch ≠ '\n') ∧
      line = content ++ newline ended := by
    induction file generalizing line with
    | nil => cases member
    | cons ch file ih =>
        by_cases first : ch = '\n'
        · subst first
          rw [splitLines_newline] at member
          rcases List.mem_cons.mp member with rfl | later
          · exact ⟨[], true, by simp, rfl⟩
          · exact ih later
        · cases rest : splitLines file with
          | nil =>
              rw [splitLines, if_neg first, rest, List.mem_singleton] at member
              exact ⟨[ch], false, by simpa using first, by rw [member]; rfl⟩
          | cons head lines =>
              rw [splitLines_cons first rest] at member
              rcases List.mem_cons.mp member with rfl | later
              · obtain ⟨content, ended, one, same⟩ := ih (rest ▸ List.mem_cons_self)
                exact ⟨ch :: content, ended, List.forall_mem_cons.mpr ⟨first, one⟩,
                  by rw [same]; rfl⟩
              · exact ih (by rw [rest]; exact List.mem_cons_of_mem _ later)
  obtain ⟨content, ended, one, same⟩ := content
  refine ⟨ne_nil_of_mem_splitLines member, ended, ?_⟩
  rw [same, lineContent_append one]

section Line

variable {line : List Char}

theorem lineContent_ne_newline : ∀ ch ∈ lineContent line, ch ≠ '\n' := by
  intro ch member
  simpa using List.mem_takeWhile_imp member

theorem splitLines_append {content : List Char} (one : ∀ ch ∈ content, ch ≠ '\n') (ended : Bool)
    (visible : content ++ newline ended ≠ []) :
    splitLines (content ++ newline ended) = [content ++ newline ended] := by
  induction content with
  | nil =>
      cases ended with
      | false => exact absurd rfl visible
      | true => rfl
  | cons ch content ih =>
      rw [List.forall_mem_cons] at one
      rw [List.cons_append]
      by_cases empty : content ++ newline ended = []
      · rw [empty]
        simp [splitLines, one.1]
      · exact splitLines_cons one.1 (ih one.2 empty)

theorem IsLine.splitLines_eq (isLine : IsLine line) : splitLines line = [line] := by
  obtain ⟨ended, same⟩ := isLine.content
  have visible := isLine.visible
  rw [same] at visible ⊢
  exact splitLines_append lineContent_ne_newline ended visible

theorem IsLine.buffers_eq (isLine : IsLine line) : buffers line = pieces line := by
  simp [buffers, isLine.splitLines_eq]

theorem IsLine.strtok_eq (isLine : IsLine line) :
    strtok line = (fields line).filter fun field => !field.isEmpty := by
  obtain ⟨ended, same⟩ := isLine.content
  rw [fields]
  conv_lhs => rw [same]
  cases ended with
  | false => simp [strtok, newline]
  | true =>
      rw [strtok, newline, if_pos rfl, List.splitOnP_append_cons _ _ isDelimiter_newline,
        List.filter_append]
      simp

theorem IsLine.first_field (isLine : IsLine line) :
    ∃ first rest behind, fields line = first :: rest ∧ line = first ++ behind ∧
      ∀ ch more, behind = ch :: more → isDelimiter ch = true := by
  obtain ⟨ended, same⟩ := isLine.content
  have split : ∀ text : List Char, ∃ first rest behind, text.splitOnP isDelimiter = first :: rest ∧
      text = first ++ behind ∧ ∀ ch more, behind = ch :: more → isDelimiter ch = true := by
    intro text
    induction text with
    | nil => exact ⟨[], [], [], by simp, rfl, by simp⟩
    | cons ch text ih =>
        obtain ⟨first, rest, behind, found, parts, stops⟩ := ih
        rw [List.splitOnP_cons_eq_if_modifyHead]
        by_cases delimiter : isDelimiter ch = true
        · refine ⟨[], _, ch :: text, by rw [if_pos delimiter], rfl, ?_⟩
          rintro _ _ ⟨⟩
          exact delimiter
        · refine ⟨ch :: first, rest, behind, ?_, by rw [parts]; rfl, stops⟩
          rw [if_neg delimiter, found]
          rfl
  obtain ⟨first, rest, behind, found, parts, stops⟩ := split (lineContent line)
  refine ⟨first, rest, behind ++ newline ended, found, ?_, ?_⟩
  · rw [← List.append_assoc, ← parts]
    exact same
  · intro ch more here
    cases behind with
    | nil =>
        cases ended with
        | false => cases here
        | true =>
            cases here
            exact isDelimiter_newline
    | cons d others =>
        cases here
        exact stops _ _ rfl

theorem validTimestamp_of_isNumber {first behind : List Char}
    (number : format.isNumber first = true) (parts : line = first ++ behind)
    (stops : ∀ ch more, behind = ch :: more → isDelimiter ch = true) :
    validTimestamp numbers line =
      (fieldValue numbers format first).filter fun ts => numbers.zero ≤ ts := by
  have nonblank := format.nonblank first number
  have longer : line.length ≠ 0 := by
    obtain ⟨ch, member, _⟩ := nonblank
    have visible := List.length_pos_of_mem member
    rw [parts, List.length_append]
    omega
  have read : numbers.strtod line = numbers.strtod first := by
    cases behind with
    | nil => rw [parts, List.append_nil]
    | cons ch more =>
        rw [parts]
        exact numbers.strtod_stops first more ch nonblank (stops ch more rfl)
  rw [validTimestamp, if_neg longer, read, fieldValue, if_pos number]

end Line

theorem filterMap_eq_singleton_iff {α β : Type} {f : α → Option β} {xs : List α} {b : β} :
    xs.filterMap f = [b] ↔ ∃ before x after, xs = before ++ x :: after ∧
      (∀ y ∈ before ++ after, f y = none) ∧ f x = some b := by
  rw [List.filterMap_eq_cons_iff]
  simp only [List.forall_mem_append, List.filterMap_eq_nil_iff]
  constructor
  · rintro ⟨before, x, after, same, front, found, rest⟩
    exact ⟨before, x, after, same, ⟨front, rest⟩, found⟩
  · rintro ⟨before, x, after, same, ⟨front, rest⟩, found⟩
    exact ⟨before, x, after, same, front, found, rest⟩

def lineRows (numbers : Numbers D) (columns : Nat) (line : List Char) : List (Row D) :=
  (pieces line).filterMap fun p => (reading numbers p).map (Sample.row numbers columns)

section Row

variable {columns : Nat} {line p : List Char}

theorem readRow_eq_none_iff :
    (reading numbers p).map (Sample.row numbers columns) = none ↔
      validTimestamp numbers (cString p) = none := by
  simp [reading]

theorem readRow_eq_some_iff {row : Row D} :
    (reading numbers p).map (Sample.row numbers columns) = some row ↔
      validTimestamp numbers (cString p) = some row.timestamp ∧
        columnValues numbers.strtod columns (strtok (cString p)).tail = row.columns := by
  obtain ⟨timestamp, values⟩ := row
  cases valid : validTimestamp numbers (cString p) with
  | none => simp [reading, valid]
  | some ts => simp [reading, valid, Sample.row]

/-- What a line says is read from it exactly when one of its pieces has it. -/
theorem lineRows_eq_iff :
    lineRows numbers columns line = (dataRow numbers format columns line).toList ↔
      PiecesRead numbers format columns line := by
  rw [PiecesRead]
  cases dataRow numbers format columns line with
  | none =>
      rw [Option.toList_none, lineRows, List.filterMap_eq_nil_iff]
      simp only [readRow_eq_none_iff]
  | some row =>
      rw [Option.toList_some, lineRows, filterMap_eq_singleton_iff]
      simp only [readRow_eq_none_iff, readRow_eq_some_iff]

theorem Fits.pieces_eq (fits : Fits line) (visible : line ≠ []) : pieces line = [line] :=
  pieces_of_short visible fits.1

theorem Fits.cString_eq (fits : Fits line) : cString line = line := by
  rw [cString, List.takeWhile_eq_self_iff]
  intro ch member
  simpa using fits.2 ch member

theorem Fits.lineRows_eq (fits : Fits line) (visible : line ≠ []) :
    lineRows numbers columns line =
      ((reading numbers line).map (Sample.row numbers columns)).toList := by
  rw [lineRows, fits.pieces_eq visible, List.filterMap_cons, List.filterMap_nil]
  cases (reading numbers line).map (Sample.row numbers columns) <;> rfl

theorem Fits.lineRows_eq_iff (fits : Fits line) (isLine : IsLine line) :
    lineRows numbers columns line = (dataRow numbers format columns line).toList ↔
      FieldsRead numbers format columns line := by
  obtain ⟨first, rest, behind, found, parts, stops⟩ := isLine.first_field
  rw [fits.lineRows_eq isLine.visible, FieldsRead, dataRow, found]
  dsimp only
  cases number : format.isNumber first with
  | false =>
      have none : fieldValue numbers format first = .none := by simp [fieldValue, number]
      simp only [none, Option.filter_none, Option.map_none, Option.toList_none,
        Option.toList_eq_nil_iff, readRow_eq_none_iff, fits.cString_eq]
      simp
  | true =>
      have visible : first ≠ [] := by
        rintro rfl
        rw [isNumber_nil] at number
        cases number
      have tokens : (strtok (cString line)).tail = rest.filter fun field => !field.isEmpty := by
        rw [fits.cString_eq, isLine.strtok_eq, found,
          List.filter_cons_of_pos (by simpa using visible), List.tail_cons]
      have valid := @validTimestamp_of_isNumber _ _ numbers _ _ _ _ number parts stops
      rw [← fits.cString_eq] at valid
      have value : fieldValue numbers format first = numbers.strtod first := by
        simp [fieldValue, number]
      rw [reading, valid, tokens, value, ← columnsRead_iff]
      cases read : numbers.strtod first with
      | none => simp
      | some ts =>
          by_cases future : numbers.zero ≤ ts
          · simp [Option.filter_some, future, Sample.row]
          · simp [Option.filter_some, future]

end Row

end DseFmi.Importer
