import DseFmi.Generate.Schema
import DseFmi.Library.Compaction
import DseFmi.Library.Success

/-!
# Patching a signal group

A patch renames or removes the signals of a group. The loop moves the signals it keeps to the
front of the list it still reads from, and yet the outcome is that of treating all signals at
once.
-/

namespace DseFmi.Patch

open DseFmi.Generate DseFmi.Library

structure IndexOutOfRange where
  index : Nat
  length : Nat

abbrev Go := Except IndexOutOfRange

/-- What a `csv.Reader` reads from a file: its first record and then all others, which have as
many fields as the first. -/
structure CsvReader where
  read : Except String (List String)
  readAll : Except String (List (List String))
  fieldsPerRecord : ∀ first records, read = .ok first → readAll = .ok records →
    ∀ record ∈ records, record.length = first.length

def field (record : List String) (i : Nat) : Go String :=
  match record[i]? with
  | some text => .ok text
  | none => .error { index := i, length := record.length }

def unexpectedColumns (record : List String) : Go Bool := do
  if (← field record 0) ≠ "source" then return true
  else return (← field record 1) ≠ "target"

abbrev PatchMap := AList fun _ : String => String

def patchRecord (patch : PatchMap) (record : List String) : Go PatchMap := do
  let target ← field record 1
  let source ← field record 0
  if target ≠ "" then return patch.insert source target
  else return patch.insert source source

def loadPatch (records : List (List String)) : Go PatchMap :=
  records.foldlM patchRecord ∅

/-- The loop's body: a signal that is not written is removed. -/
def patchSignal (patch : PatchMap) (removeUnknown : Bool) (signals : Compaction Signal)
    (s : Signal) : Compaction Signal :=
  match patch.lookup s.signal with
  | some target =>
      if target ≠ "inactive" then signals.write { s with signal := target } else signals
  | none =>
      if !removeUnknown then signals.write s else signals

/-- The group afterwards, and the error that is returned. -/
def patchSignals (os : String → Except String CsvReader) (sigGroup : SignalGroup)
    (patchFile : String) (removeUnknown : Bool) : Go (SignalGroup × Option String) :=
  match os patchFile with
  | .error err =>
      .ok (sigGroup, some ("unable to open patch file: " ++ patchFile ++ " (" ++ err ++ ")"))
  | .ok r =>
      match r.read with
      | .error err => .ok (sigGroup, some ("unable to read csv (" ++ err ++ ")"))
      | .ok record => do
          if ← unexpectedColumns record then
            return (sigGroup,
              some ("unexpected csv columns ([" ++ String.intercalate " " record ++ "])"))
          match r.readAll with
          | .error err => return (sigGroup, some ("unable to read csv (" ++ err ++ ")"))
          | .ok records => do
              let patch ← loadPatch records
              let signals := Compaction.run (patchSignal patch removeUnknown) sigGroup.signals
              return ({ sigGroup with signals := signals.written }, none)

def rowOf (record : List String) : String × String := (record.getD 0 "", record.getD 1 "")

/-- The target of a source in its last row, which is the source itself if that row has none. -/
def targetOf : List (String × String) → String → Option String
  | [], _ => none
  | (source, target) :: later, name =>
      match targetOf later name with
      | some found => some found
      | none => if source = name then some (if target = "" then source else target) else none

/-- What becomes of one signal, whatever becomes of the others. -/
def treat (rows : List (String × String)) (removeUnknown : Bool) (s : Signal) : Option Signal :=
  match targetOf rows s.signal with
  | some target => if target = "inactive" then none else some { s with signal := target }
  | none => if removeUnknown then none else some s

variable {patch : PatchMap} {records : List (List String)} {record : List String}
  {removeUnknown : Bool} {sigGroup : SignalGroup}

theorem treat_annotations {rows : List (String × String)} {s s' : Signal}
    (kept : treat rows removeUnknown s = some s') : s'.annotations = s.annotations := by
  simp only [treat] at kept
  split at kept
  · split at kept
    · cases kept
    · cases kept
      simp
  · split at kept
    · cases kept
    · cases kept
      simp

theorem field_of_lt {i : Nat} (inside : i < record.length) :
    field record i = .ok (record.getD i "") := by
  simp [field, inside]

theorem patchRecord_ok (patch : PatchMap) (wide : 2 ≤ record.length) :
    patchRecord patch record = .ok (patch.insert (rowOf record).1
      (if (rowOf record).2 = "" then (rowOf record).1 else (rowOf record).2)) := by
  have first : field record 0 = .ok (rowOf record).1 := field_of_lt (by omega)
  have second : field record 1 = .ok (rowOf record).2 := field_of_lt wide
  simp only [patchRecord, first, second, ok_bind]
  by_cases empty : (rowOf record).2 = "" <;> simp [empty, pure_eq_ok]

/-- A later record replaces what an earlier one says of its source. -/
theorem foldlM_patchRecord (wide : ∀ record ∈ records, 2 ≤ record.length) (patch : PatchMap) :
    ∃ patch', records.foldlM patchRecord patch = .ok patch' ∧
      ∀ name, patch'.lookup name = (targetOf (records.map rowOf) name).or (patch.lookup name) := by
  induction records generalizing patch with
  | nil =>
      exact ⟨patch, rfl, fun name => by simp [targetOf]⟩
  | cons record records ih =>
      have step := patchRecord_ok patch (wide record List.mem_cons_self)
      obtain ⟨patch', rest, lookups⟩ :=
        ih (fun other member => wide other (List.mem_cons_of_mem record member))
          (patch.insert (rowOf record).1
            (if (rowOf record).2 = "" then (rowOf record).1 else (rowOf record).2))
      refine ⟨patch', ?_, ?_⟩
      · rw [List.foldlM_cons, step, ok_bind, rest]
      · intro name
        rw [lookups, List.map_cons, targetOf]
        cases found : targetOf (records.map rowOf) name with
        | some target =>
            simp
        | none =>
            by_cases same : (rowOf record).1 = name
            · simp [same]
            · simp [same, AList.lookup_insert_ne (Ne.symm same)]

theorem loadPatch_ok (wide : ∀ record ∈ records, 2 ≤ record.length) :
    ∃ patch, loadPatch records = .ok patch ∧
      ∀ name, patch.lookup name = targetOf (records.map rowOf) name := by
  obtain ⟨patch, loaded, lookups⟩ := foldlM_patchRecord wide ∅
  exact ⟨patch, loaded, by simpa using lookups⟩

theorem patchSignal_keeps
    (lookups : ∀ name, patch.lookup name = targetOf (records.map rowOf) name) :
    Compaction.Keeps (patchSignal patch removeUnknown)
      (treat (records.map rowOf) removeUnknown) := by
  intro signals s
  simp only [patchSignal, treat, lookups]
  cases targetOf (records.map rowOf) s.signal with
  | some target =>
      by_cases inactive : target = "inactive" <;> simp [inactive]
  | none =>
      cases removeUnknown <;> simp

theorem unexpectedColumns_sourceTarget (more : List String) :
    unexpectedColumns ("source" :: "target" :: more) = .ok false := by
  simp [unexpectedColumns, field]

theorem patchSignals_ok {os : String → Except String CsvReader} {patchFile : String}
    {r : CsvReader} {more : List String} (opened : os patchFile = .ok r)
    (header : r.read = .ok ("source" :: "target" :: more)) (all : r.readAll = .ok records) :
    patchSignals os sigGroup patchFile removeUnknown = .ok ({ sigGroup with
      signals := sigGroup.signals.filterMap (treat (records.map rowOf) removeUnknown) }, none) := by
  have wide : ∀ record ∈ records, 2 ≤ record.length := by
    intro record member
    have := r.fieldsPerRecord _ _ header all record member
    simp only [List.length_cons] at this
    omega
  obtain ⟨patch, loaded, lookups⟩ := loadPatch_ok wide
  simp only [patchSignals, opened, header, unexpectedColumns_sourceTarget, ok_bind, all, loaded]
  rw [Compaction.written_run (patchSignal_keeps lookups)]
  simp [pure_eq_ok]

theorem patchSignals_error {os : String → Except String CsvReader} {patchFile err : String}
    {sigGroup' : SignalGroup}
    (failed : patchSignals os sigGroup patchFile removeUnknown = .ok (sigGroup', some err)) :
    sigGroup' = sigGroup := by
  simp only [patchSignals] at failed
  cases opened : os patchFile with
  | error unopened =>
      simp only [opened, Except.ok.injEq, Prod.mk.injEq] at failed
      exact failed.1.symm
  | ok r =>
      simp only [opened] at failed
      cases header : r.read with
      | error unread =>
          simp only [header, Except.ok.injEq, Prod.mk.injEq] at failed
          exact failed.1.symm
      | ok record =>
          simp only [header] at failed
          obtain ⟨unexpected, _, failed⟩ := bind_eq_ok.mp failed
          cases unexpected with
          | true =>
              exact (congrArg Prod.fst (pure_eq_ok.mp failed)).symm
          | false =>
              cases all : r.readAll with
              | error unread =>
                  simp only [all] at failed
                  exact (congrArg Prod.fst (pure_eq_ok.mp failed)).symm
              | ok records =>
                  simp only [all] at failed
                  obtain ⟨patch, _, failed⟩ := bind_eq_ok.mp failed
                  have none_some := congrArg Prod.snd (pure_eq_ok.mp failed)
                  cases none_some

theorem patchSignals_simultaneous (os : String → Except String CsvReader)
    (sigGroup : SignalGroup) (patchFile : String) (removeUnknown : Bool) :
    (∀ r more records, os patchFile = .ok r → r.read = .ok ("source" :: "target" :: more) →
      r.readAll = .ok records →
        patchSignals os sigGroup patchFile removeUnknown = .ok ({ sigGroup with
          signals := sigGroup.signals.filterMap (treat (records.map rowOf) removeUnknown) },
          none) ∧
        ∀ s s', treat (records.map rowOf) removeUnknown s = some s' →
          s'.annotations = s.annotations) ∧
      ∀ sigGroup' err,
        patchSignals os sigGroup patchFile removeUnknown = .ok (sigGroup', some err) →
          sigGroup' = sigGroup := by
  constructor
  · intro r more records opened header all
    exact ⟨patchSignals_ok opened header all, fun s s' kept => treat_annotations kept⟩
  · intro sigGroup' err failed
    exact patchSignals_error failed

def swapRows : List (List String) :=
  [["a", "x"], ["a", "b"], ["b", "a"], ["c", "a"], ["d", "inactive"], ["e", ""]]

theorem swapRows_fields : ∀ first records,
    (.ok ["source", "target"] : Except String (List String)) = .ok first →
    (.ok swapRows : Except String (List (List String))) = .ok records →
      ∀ record ∈ records, record.length = first.length := by
  intro first records read readAll
  cases read
  cases readAll
  simp [swapRows]

def swapPatch : CsvReader where
  read := .ok ["source", "target"]
  readAll := .ok swapRows
  fieldsPerRecord := swapRows_fields

theorem patchSignals_swap :
    patchSignals (fun _ => .ok swapPatch)
        { metadata := none,
          signals := [⟨"a", none⟩, ⟨"b", none⟩, ⟨"c", none⟩, ⟨"d", none⟩, ⟨"e", none⟩,
            ⟨"f", none⟩] }
        "patch.csv" true =
      .ok ({ metadata := none,
             signals := [⟨"b", none⟩, ⟨"a", none⟩, ⟨"a", none⟩, ⟨"e", none⟩] }, none) := by
  have opened : (fun _ : String => (.ok swapPatch : Except String CsvReader)) "patch.csv" =
    .ok swapPatch := rfl
  have header : swapPatch.read = .ok ("source" :: "target" :: []) := rfl
  have all : swapPatch.readAll = .ok swapRows := rfl
  have outcome := ((patchSignals_simultaneous (fun _ => .ok swapPatch)
    { metadata := none,
      signals := [⟨"a", none⟩, ⟨"b", none⟩, ⟨"c", none⟩, ⟨"d", none⟩, ⟨"e", none⟩, ⟨"f", none⟩] }
    "patch.csv" true).1 swapPatch [] swapRows opened header all).1
  simpa [treat, targetOf, rowOf, swapRows] using outcome

end DseFmi.Patch
