import DseFmi.Importer.FollowedFields

/-!
# Sample files whose fields are followed

The reader sets the signals of the columns from the fields of a sample file exactly when the
references of the header and the fields of each line are read at their places.
-/

namespace DseFmi.Importer

open DseFmi.Library

variable {D : Type} [LinearOrder D] {numbers : Numbers D} {format : NumberFormat}

theorem indexColumns_eq_some_iff {rxVr : List UInt32} {columns : List (List Char)}
    {index result : List Nat} :
    indexColumns rxVr columns index = some result ↔
      (∀ vr ∈ (columns.map atoi).take (rxVr.length - index.length), vr ∈ rxVr) ∧
        result = index ++
          ((columns.map atoi).take (rxVr.length - index.length)).map rxVr.idxOf := by
  induction columns generalizing index with
  | nil =>
      simp only [indexColumns, Option.some.injEq, List.map_nil, List.take_nil, List.append_nil,
        List.not_mem_nil, false_implies, implies_true, true_and]
      exact eq_comm
  | cons vr columns ih =>
      rw [indexColumns]
      by_cases full : rxVr.length ≤ index.length
      · have none : rxVr.length - index.length = 0 := by omega
        rw [if_pos full, none]
        simp [eq_comm]
      · obtain ⟨room, same⟩ : ∃ room, rxVr.length - index.length = room + 1 :=
          ⟨rxVr.length - index.length - 1, by omega⟩
        have next : ∀ i, rxVr.length - (index ++ [i]).length = room := by
          intro i
          rw [List.length_append, List.length_singleton]
          omega
        rw [if_neg full, same, List.map_cons, List.take_succ_cons, List.forall_mem_cons,
          List.map_cons]
        by_cases known : atoi vr ∈ rxVr
        · rw [idxOf?_of_mem known]
          simp only [ih, next, List.append_assoc, List.singleton_append, known, true_and]
        · rw [List.idxOf?_eq_none_iff.mpr known]
          simp [known]

section References

/-- A prefix of a text has no more fields behind the first one than the text, and a first one when
the text has one. -/
theorem splitOnP_prefix {begun text : List Char} {first first' : List Char}
    {rest rest' : List (List Char)} (isPrefix : begun <+: text)
    (split : begun.splitOnP isDelimiter = first :: rest)
    (split' : text.splitOnP isDelimiter = first' :: rest') :
    (rest.filter fun field => !field.isEmpty).length ≤
        (rest'.filter fun field => !field.isEmpty).length ∧
      (first = [] ↔ begun = [] ∨ first' = []) := by
  obtain ⟨more, rfl⟩ := isPrefix
  induction begun generalizing first rest first' rest' with
  | nil =>
      rw [List.splitOnP_nil] at split
      cases split
      simp
  | cons ch begun ih =>
      obtain ⟨head, tail, here⟩ := List.exists_cons_of_ne_nil
        (List.splitOnP_ne_nil isDelimiter begun)
      obtain ⟨head', tail', there⟩ := List.exists_cons_of_ne_nil
        (List.splitOnP_ne_nil isDelimiter (begun ++ more))
      obtain ⟨fewer, visible⟩ := ih here there
      rw [List.splitOnP_cons_eq_if_modifyHead, here] at split
      rw [List.cons_append, List.splitOnP_cons_eq_if_modifyHead, there] at split'
      by_cases delimiter : isDelimiter ch = true
      · rw [if_pos delimiter] at split split'
        cases split
        cases split'
        refine ⟨?_, by simp⟩
        cases head with
        | nil =>
            rw [List.filter_cons_of_neg (by simp)]
            apply fewer.trans
            rw [List.filter_cons]
            split <;> simp
        | cons c cs =>
            have shown : head' ≠ [] := fun empty => List.cons_ne_nil c cs (visible.mpr (.inr empty))
            rw [List.filter_cons_of_pos (by simp), List.filter_cons_of_pos (by simpa using shown)]
            exact Nat.succ_le_succ fewer
      · rw [if_neg delimiter] at split split'
        cases split
        cases split'
        exact ⟨fewer, by simp⟩

theorem lineContent_isPrefix {begun text : List Char} (isPrefix : begun <+: text) :
    lineContent begun <+: lineContent text := by
  obtain ⟨more, rfl⟩ := isPrefix
  rw [lineContent, lineContent, List.takeWhile_append]
  split
  next whole =>
    rw [(List.takeWhile_prefix _).eq_of_length whole]
    exact List.prefix_append _ _
  · exact List.prefix_rfl

theorem isLine_of_isPrefix {begun line : List Char} (isLine : line = [] ∨ IsLine line)
    (isPrefix : begun <+: line) : begun = [] ∨ IsLine begun := by
  by_cases empty : begun = []
  · exact .inl empty
  · rcases isLine with rfl | isLine
    · exact .inl (List.prefix_nil.mp isPrefix)
    · refine .inr ⟨empty, ?_⟩
      obtain ⟨ended, same⟩ := isLine.content
      have content : begun <+: lineContent line → begun = lineContent begun ++ newline false := by
        intro inside
        have all : lineContent begun = begun := by
          rw [lineContent, List.takeWhile_eq_self_iff]
          intro ch member
          simpa using lineContent_ne_newline ch (inside.subset member)
        rw [all]
        simp [newline]
      rw [same] at isPrefix
      cases ended with
      | false =>
          rw [newline, if_neg (by simp), List.append_nil] at isPrefix
          exact ⟨false, content isPrefix⟩
      | true =>
          rw [newline, if_pos rfl] at isPrefix
          rcases List.prefix_concat_iff.mp isPrefix with whole | inside
          · refine ⟨true, ?_⟩
            rw [whole]
            exact congrArg (· ++ newline true)
              (lineContent_append lineContent_ne_newline true).symm
          · exact ⟨false, content inside⟩

/-- The references behind the first field, and those that the reader takes. -/
theorem references_of_fields (rxVr : List UInt32) {header cut first : List Char}
    {rest : List (List Char)} (isCut : cString (header.take (csvLineMaxlen - 1)) = cut)
    (line : cut = [] ∨ IsLine cut) (split : fields cut = first :: rest) :
    references cut = (rest.filter fun field => !field.isEmpty).map atoi ∧
      readReferences rxVr header =
        (if first = [] then (references cut).tail else references cut).take rxVr.length := by
  have refs : references cut = (rest.filter fun field => !field.isEmpty).map atoi := by
    rw [references, split, List.tail_cons]
  refine ⟨refs, ?_⟩
  have tokens : strtok cut = (fields cut).filter fun field => !field.isEmpty := by
    cases line with
    | inl empty => rw [empty]; rfl
    | inr isLine => exact isLine.strtok_eq
  rw [readReferences, isCut, tokens, split, refs]
  by_cases empty : first = []
  · rw [if_pos empty, List.filter_cons_of_neg (by simp [empty]), List.map_tail]
  · rw [if_neg empty, List.filter_cons_of_pos (by simpa using empty), List.tail_cons]

/-- The references of a header are read when there is something in front of them, an input for
each, and none is lost where the buffer or a NUL ends the header. -/
theorem readReferences_eq_iff {rxVr : List UInt32} {header : List Char}
    (line : header = [] ∨ IsLine header) :
    readReferences rxVr header = references header ↔
      ((fields header).head? = some [] → references header = []) ∧
        (references header).length ≤ rxVr.length ∧
          references (cString (header.take (csvLineMaxlen - 1))) = references header := by
  have isPrefix : cString (header.take (csvLineMaxlen - 1)) <+: header :=
    (List.takeWhile_prefix _).trans (List.take_prefix _ _)
  generalize isCut : cString (header.take (csvLineMaxlen - 1)) = cut at isPrefix ⊢
  obtain ⟨first, rest, split⟩ := List.exists_cons_of_ne_nil
    (List.splitOnP_ne_nil isDelimiter (lineContent cut))
  obtain ⟨first', rest', split'⟩ := List.exists_cons_of_ne_nil
    (List.splitOnP_ne_nil isDelimiter (lineContent header))
  obtain ⟨fewer, visible⟩ := splitOnP_prefix (lineContent_isPrefix isPrefix) split split'
  obtain ⟨refs, read⟩ :=
    references_of_fields rxVr isCut (isLine_of_isPrefix line isPrefix) split
  have refs' : references header = (rest'.filter fun field => !field.isEmpty).map atoi := by
    rw [references, fields, split', List.tail_cons]
  have shorter : (references cut).length ≤ (references header).length := by
    rw [refs, refs', List.length_map, List.length_map]
    exact fewer
  have head : (fields header).head? = some first' := by rw [fields, split']; rfl
  rw [read, head, Option.some.injEq]
  constructor
  · intro same
    have length := congrArg List.length same
    by_cases empty : first = []
    · rw [if_pos empty] at same length
      rw [List.length_take, List.length_tail] at length
      have none_cut : references cut = [] := List.eq_nil_of_length_eq_zero (by omega)
      rw [none_cut] at same ⊢
      rw [← same]
      simp
    · rw [if_neg empty] at same length
      rw [List.length_take] at length
      rw [List.take_of_length_le (by omega)] at same
      refine ⟨?_, by omega, same⟩
      intro empty'
      exact absurd (visible.mpr (.inr empty')) empty
  · rintro ⟨shown, room, same⟩
    by_cases empty : first = []
    · have none_read : references header = [] := by
        rcases visible.mp empty with blank | empty'
        · rw [← same, refs]
          rw [blank, List.splitOnP_nil] at split
          cases split
          rfl
        · exact shown empty'
      rw [if_pos empty, same, none_read]
      simp
    · rw [if_neg empty, same, List.take_of_length_le room]

end References

section Header

variable {rxVr : List UInt32} {text : List Char}

/-- The references that the reader looks for are there. -/
def ReferencesKnown (rxVr : List UInt32) (text : List Char) : Prop :=
  ∀ vr ∈ readReferences rxVr (headerLine text), vr ∈ rxVr

/-- What `csv_index` reads of a text: the beginning of its first line. -/
theorem fgets_header :
    (match fgets csvLineMaxlen text with
      | none => (([] : List Char), text)
      | some (buffer, file) => (cString buffer, file)) =
      (cString ((headerLine text).take (csvLineMaxlen - 1)),
        (headerLine text).drop (csvLineMaxlen - 1) ++ (dataLines text).flatten) := by
  cases split : splitLines text with
  | nil =>
      obtain rfl := splitLines_eq_nil split
      rfl
  | cons header lines =>
      have visible : text ≠ [] := by
        rintro rfl
        cases split
      rw [fgets, if_neg visible, takeLine_splitLines split, headerLine, dataLines, split]
      rfl

theorem buffers_header :
    buffers ((headerLine text).drop (csvLineMaxlen - 1) ++ (dataLines text).flatten) =
      (pieces (headerLine text)).tail ++ (dataLines text).flatMap pieces := by
  cases split : splitLines text with
  | nil =>
      rw [headerLine, dataLines, split]
      simp [pieces_nil, buffers, splitLines]
  | cons header lines =>
      have visible := ne_nil_of_mem_splitLines (split ▸ List.mem_cons_self)
      rw [headerLine, dataLines, split, List.headD_cons, List.tail_cons, buffers,
        splitLines_drop split, pieces_of_ne_nil visible, List.tail_cons]
      split
      next empty => simp [empty, pieces_nil]
      next => simp

/-- The indexed signals are those of the references read, and what is left of the header is
read with the lines behind it. -/
structure Indexed (numbers : Numbers D) (rxVr : List UInt32) (text : List Char) (c : CsvDesc D) :
    Prop where
  index : c.index = (readReferences rxVr (headerLine text)).map rxVr.idxOf
  waiting : waiting numbers c =
    ((pieces (headerLine text)).tail ++ (dataLines text).flatMap pieces).filterMap
      (reading numbers)

theorem csvIndex_eq (numbers : Numbers D) (rxVr : List UInt32) (text : List Char) :
    csvIndex numbers rxVr (csvOpen numbers text) =
      (indexColumns rxVr
          (strtok (cString ((headerLine text).take (csvLineMaxlen - 1)))).tail []).map fun index =>
        (csvReadLine numbers
          { file := (headerLine text).drop (csvLineMaxlen - 1) ++ (dataLines text).flatten
            line := cString ((headerLine text).take (csvLineMaxlen - 1))
            timestamp := numbers.zero
            index }).2 := by
  have read := @fgets_header text
  rw [csvIndex]
  cases found : fgets csvLineMaxlen text with
  | none =>
      simp only [found] at read
      obtain ⟨line, file⟩ := Prod.mk.inj read
      simp only [csvOpen, found, ← line, ← file]
  | some result =>
      simp only [found] at read
      obtain ⟨line, file⟩ := Prod.mk.inj read
      simp only [csvOpen, found, ← line, ← file]

theorem csvIndex_eq_some {c : CsvDesc D}
    (ran : csvIndex numbers rxVr (csvOpen numbers text) = some c) :
    ReferencesKnown rxVr text ∧ Indexed numbers rxVr text c := by
  rw [csvIndex_eq, Option.map_eq_some_iff] at ran
  obtain ⟨index, found, rfl⟩ := ran
  obtain ⟨known, same⟩ := indexColumns_eq_some_iff.mp found
  obtain ⟨ahead, kept, _⟩ := @csvReadLine_readings _ _ numbers
    { file := (headerLine text).drop (csvLineMaxlen - 1) ++ (dataLines text).flatten
      line := cString ((headerLine text).take (csvLineMaxlen - 1))
      timestamp := numbers.zero
      index }
  refine ⟨known, ⟨kept.trans same, ?_⟩⟩
  rw [ahead, readings, buffers_header]

theorem csvIndex_of_known (known : ReferencesKnown rxVr text) :
    ∃ c, csvIndex numbers rxVr (csvOpen numbers text) = some c := by
  have found := (@indexColumns_eq_some_iff _ _ [] _).mpr ⟨known, rfl⟩
  rw [csvIndex_eq, found]
  exact ⟨_, rfl⟩

end Header

section Run

variable {c : CsvDesc D} {index : List Nat}

theorem foldl_applyCell_eq (index : List Nat) (cells : List (List Char)) (values : List D) :
    (index.zip cells).foldl (applyCell numbers) values =
      setColumns index values (columnValues numbers.strtod index.length cells) := by
  induction index generalizing cells values with
  | nil => rfl
  | cons signal index ih =>
      cases cells with
      | nil =>
          rw [List.length_cons, columnValues, setColumns, ← ih]
          simp
      | cons cell cells =>
          rw [List.zip_cons_cons, List.foldl_cons, ih, List.length_cons, columnValues, applyCell]
          cases numbers.strtod cell <;> rfl

theorem applyCells_eq_setColumns (cells : List (List Char)) (values : List D) :
    applyCells numbers index 0 cells values =
      setColumns index values (columnValues numbers.strtod index.length cells) := by
  rw [applyCells_eq, List.drop_zero, foldl_applyCell_eq]

def waitingRows (numbers : Numbers D) (c : CsvDesc D) : List (Row D) :=
  (waiting numbers c).map (Sample.row numbers c.index.length)

theorem applyCalls_rows (c : CsvDesc D) (values times : List D) :
    (applyCalls numbers c values times).map
        (fun call => call.samples.map (Sample.row numbers c.index.length)) =
      releases Row.timestamp times (waitingRows numbers c) := by
  have due : (fun s => (Sample.row numbers c.index.length s).timestamp) =
      (Sample.timestamp : Sample D → D) := rfl
  rw [waitingRows, releases_map, due, ← applyCalls_waiting c values times, List.map_map]
  rfl

theorem applyCalls_values (c : CsvDesc D) (values times : List D) :
    (applyCalls numbers c values times).map Applied.values =
      valuesAfter c.index values (releases Row.timestamp times (waitingRows numbers c)) := by
  induction times generalizing c values with
  | nil => rfl
  | cons time times ih =>
      obtain ⟨later, index, now⟩ := @applySamples_waiting _ _ numbers c values time
      have front : (waitingRows numbers c).takeWhile (fun row => row.timestamp ≤ time) =
          ((waiting numbers c).takeWhile fun s => s.timestamp ≤ time).map
            (Sample.row numbers c.index.length) := by
        rw [waitingRows, List.takeWhile_map]
        rfl
      have rest : (waitingRows numbers c).dropWhile (fun row => row.timestamp ≤ time) =
          waitingRows numbers (applySamples numbers c values time).1 := by
        rw [waitingRows, waitingRows, later, index, List.dropWhile_map]
        rfl
      rw [applyCalls, releases, valuesAfter, List.map_cons, ih, front, rest, List.foldl_map, now,
        index]
      simp only [applyCells_eq_setColumns, Sample.row]

theorem waitingRows_readerAt {line : List Char} (isLine : IsLine line) :
    waitingRows numbers (readerAt numbers index line) = lineRows numbers index.length line := by
  obtain ⟨ahead, kept, _⟩ := @csvReadLine_readings _ _ numbers
    { file := line, line := [], timestamp := numbers.zero, index }
  have same : (readerAt numbers index line).index = index := kept
  rw [waitingRows, same]
  rw [readerAt, ahead, readings, isLine.buffers_eq, lineRows, List.map_filterMap]

theorem waitingRows_eq {rxVr : List UInt32} {text : List Char}
    (indexed : Indexed numbers rxVr text c) :
    waitingRows numbers c =
      ((pieces (headerLine text)).tail.filterMap fun p =>
          (reading numbers p).map (Sample.row numbers c.index.length)) ++
        (dataLines text).flatMap (lineRows numbers c.index.length) := by
  have lines : (dataLines text).flatMap (lineRows numbers c.index.length) =
      ((dataLines text).flatMap pieces).filterMap fun p =>
        (reading numbers p).map (Sample.row numbers c.index.length) := by
    rw [List.filterMap_flatMap]
    rfl
  rw [waitingRows, indexed.waiting, List.map_filterMap, List.filterMap_append, lines]

end Run

theorem lineRead_iff {line : List Char} (isLine : IsLine line) {columns : Nat} :
    lineRows numbers columns line = (dataRow numbers format columns line).toList ↔
      LineRead numbers format columns line := by
  by_cases fits : Fits line
  · rw [fits.lineRows_eq_iff isLine]
    exact ⟨fun read => ⟨fun _ => read, fun long => absurd fits long⟩, fun read => read.fits fits⟩
  · rw [lineRows_eq_iff]
    exact ⟨fun read => ⟨fun short => absurd short fits, fun _ => read⟩, fun read => read.long fits⟩

theorem isLine_of_mem_dataLines {text line : List Char} (member : line ∈ dataLines text) :
    IsLine line :=
  isLine_of_mem_splitLines (List.mem_of_mem_tail member)

/-- References that are found at the same places are the same. -/
theorem map_idxOf_inj {rxVr vrs others : List UInt32} (known : ∀ vr ∈ vrs, vr ∈ rxVr)
    (same : vrs.map rxVr.idxOf = others.map rxVr.idxOf) : vrs = others := by
  induction vrs generalizing others with
  | nil => exact (List.map_eq_nil_iff.mp same.symm).symm
  | cons vr vrs ih =>
      rw [List.forall_mem_cons] at known
      cases others with
      | nil => cases same
      | cons other others =>
          obtain ⟨first, rest⟩ := List.cons.inj same
          rw [(List.idxOf_inj known.1).mp first, ih known.2 rest]

section Text

variable {rxVr : List UInt32} {text : List Char} {c : CsvDesc D}

/-- The calls release some rows, whenever they are made, exactly when those rows wait. -/
theorem applyCalls_eq_releases_iff {rows : List (Row D)} :
    (∀ values times, (applyCalls numbers c values times).map
        (fun call => call.samples.map (Sample.row numbers c.index.length)) =
      releases Row.timestamp times rows) ↔ waitingRows numbers c = rows := by
  have : Nonempty D := ⟨numbers.zero⟩
  simp only [applyCalls_rows]
  rw [← @releases_inj _ _ _ Row.timestamp _ _ _]
  exact ⟨fun all => all [], fun all _ => all⟩

theorem readerAt_eq_releases_iff {index : List Nat} {line : List Char} (isLine : IsLine line)
    {rows : List (Row D)} :
    (∀ values times, (applyCalls numbers (readerAt numbers index line) values times).map
        (fun call => call.samples.map (Sample.row numbers index.length)) =
      releases Row.timestamp times rows) ↔ lineRows numbers index.length line = rows := by
  have kept : (readerAt numbers index line).index = index := (csvReadLine_readings _).2.1
  rw [← waitingRows_readerAt isLine, ← applyCalls_eq_releases_iff, kept]

theorem flatMap_lineRows {columns : Nat}
    (lines : ∀ line ∈ dataLines text, lineRows numbers columns line =
      (dataRow numbers format columns line).toList) :
    (dataLines text).flatMap (lineRows numbers columns) =
      (dataLines text).filterMap (dataRow numbers format columns) := by
  rw [List.filterMap_eq_flatMap_toList]
  exact List.flatMap_congr lines

theorem headerRead_iff : HeaderRead numbers rxVr (headerLine text) ↔
    readReferences rxVr (headerLine text) = references (headerLine text) ∧
      ∀ p ∈ (pieces (headerLine text)).tail, validTimestamp numbers (cString p) = none := by
  have line : headerLine text = [] ∨ IsLine (headerLine text) := by
    cases split : splitLines text with
    | nil => exact .inl (by rw [headerLine, split]; rfl)
    | cons header lines =>
        rw [headerLine, split]
        exact .inr (isLine_of_mem_splitLines (split ▸ List.mem_cons_self))
  rw [readReferences_eq_iff line]
  constructor
  · rintro ⟨first, room, cut, rest⟩
    exact ⟨⟨first, room, cut⟩, rest⟩
  · rintro ⟨⟨first, room, cut⟩, rest⟩
    exact ⟨first, room, cut, rest⟩

theorem followsFields_iff (known : ReferencesKnown rxVr text)
    (indexed : Indexed numbers rxVr text c) :
    FollowsFields numbers format rxVr text c ↔ TextRead numbers format rxVr text := by
  constructor
  · rintro ⟨index, alone, together, _⟩
    have same := map_idxOf_inj known (indexed.index.symm.trans index)
    have columns : c.index.length = (references (headerLine text)).length := by
      rw [index, List.length_map]
    have lines : ∀ line ∈ dataLines text, lineRows numbers c.index.length line =
        (dataRow numbers format c.index.length line).toList := fun line member =>
      (readerAt_eq_releases_iff (isLine_of_mem_dataLines member)).mp (alone line member)
    have all := applyCalls_eq_releases_iff.mp together
    rw [waitingRows_eq indexed, flatMap_lineRows lines, List.append_left_eq_self,
      List.filterMap_eq_nil_iff] at all
    refine ⟨headerRead_iff.mpr ⟨same, ?_⟩, ?_⟩
    · intro p member
      exact readRow_eq_none_iff.mp (all p member)
    · intro line member
      rw [← columns]
      exact (lineRead_iff (isLine_of_mem_dataLines member)).mp (lines line member)
  · rintro ⟨header, read⟩
    obtain ⟨same, rest⟩ := headerRead_iff.mp header
    have index : c.index = (references (headerLine text)).map rxVr.idxOf := by
      rw [indexed.index, same]
    have columns : c.index.length = (references (headerLine text)).length := by
      rw [index, List.length_map]
    have lines : ∀ line ∈ dataLines text, lineRows numbers c.index.length line =
        (dataRow numbers format c.index.length line).toList := fun line member =>
      (lineRead_iff (isLine_of_mem_dataLines member)).mpr (columns ▸ read line member)
    have header : ((pieces (headerLine text)).tail.filterMap fun p =>
        (reading numbers p).map (Sample.row numbers c.index.length)) = [] :=
      List.filterMap_eq_nil_iff.mpr fun p member => readRow_eq_none_iff.mpr (rest p member)
    have all : waitingRows numbers c =
        (dataLines text).filterMap (dataRow numbers format c.index.length) := by
      rw [waitingRows_eq indexed, header, flatMap_lineRows lines, List.nil_append]
    refine ⟨index, ?_, applyCalls_eq_releases_iff.mpr all, ?_⟩
    · intro line member
      exact (readerAt_eq_releases_iff (isLine_of_mem_dataLines member)).mpr (lines line member)
    · intro values times
      rw [applyCalls_values, all]

end Text

/-- The reader follows the fields of a sample file exactly when its references are not all
known, so that the program ends, or its header and its lines are read. -/
theorem csvIndex_followsFields_iff (numbers : Numbers D) (format : NumberFormat)
    (rxVr : List UInt32) (text : List Char) :
    (∀ c, csvIndex numbers rxVr (csvOpen numbers text) = some c →
        FollowsFields numbers format rxVr text c) ↔
      (ReferencesKnown rxVr text → TextRead numbers format rxVr text) := by
  constructor
  · intro follows known
    obtain ⟨c, ran⟩ := @csvIndex_of_known _ _ numbers _ _ known
    exact (followsFields_iff known (csvIndex_eq_some ran).2).mp (follows c ran)
  · intro read c ran
    obtain ⟨known, indexed⟩ := csvIndex_eq_some ran
    exact (followsFields_iff known indexed).mpr (read known)

def unsigned : List Char → List Char
  | '-' :: digits => digits
  | '+' :: digits => digits
  | digits => digits

/-- A sign and digits, with blanks around them. -/
def isWhole (text : List Char) : Bool :=
  let digits := unsigned (text.dropWhile isSpace)
  (digits.headD ' ').isDigit && (digits.dropWhile Char.isDigit).all isSpace

theorem isWhole_nonblank (text : List Char) (whole : isWhole text = true) :
    ∃ ch ∈ text, isSpace ch = false := by
  by_contra blank
  have all : ∀ ch ∈ text, isSpace ch = true := by
    intro ch member
    cases space : isSpace ch with
    | true => rfl
    | false => exact absurd ⟨ch, member, space⟩ blank
  rw [isWhole, List.dropWhile_eq_nil_iff.mpr all] at whole
  cases whole

def wholeNumbers : NumberFormat where
  isNumber := isWhole
  nonblank := isWhole_nonblank

def emptyCell : List Char := "t,1,2\n0,,5\n".toList

/-- The second cell is taken for the first column. -/
theorem csvIndex_emptyCell :
    ¬ ∀ c, csvIndex decimal [1, 2] (csvOpen decimal emptyCell) = some c →
      FollowsFields decimal wholeNumbers [1, 2] emptyCell c := by
  intro follows
  have read : readReferences [1, 2] (headerLine emptyCell) = [1, 2] := by decide
  have known : ReferencesKnown [1, 2] emptyCell := by
    intro vr member
    rwa [read] at member
  obtain ⟨c, ran⟩ := @csvIndex_of_known _ _ decimal _ _ known
  have lines := ((followsFields_iff known (csvIndex_eq_some ran).2).mp (follows c ran)).lines
  have line : "0,,5\n".toList ∈ dataLines emptyCell := List.mem_singleton.mpr rfl
  have fits : Fits "0,,5\n".toList := by
    refine ⟨by decide, ?_⟩
    simp
  have fields := (lines _ line).fits fits
  have columns := fields.1 rfl ⟨0, rfl, le_refl 0⟩
  have cell := columns "5".toList (List.mem_singleton.mpr rfl)
  cases cell

end DseFmi.Importer
