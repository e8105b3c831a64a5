import DseFmi.Generate.VersionAgreement

/-!
# Groups that are skipped

A builder adds the variables of a group signal by signal, and returns an error at the first
signal without references. A group with an error leaves the model description as it was
unless a signal before that one has added a variable.
-/

namespace DseFmi.Generate

open DseFmi.Library

/-- A builder that returns an error leaves the model description as it was. -/
def Unchanged {M : Type} (md : M) (result : Go (M × Option String)) : Prop :=
  ∀ md' error, result = .ok (md', some error) → md' = md

structure StopsAt (readable : Signal → Prop) (entry : Signal → Option (List ExportedVariable))
    (before : List Signal) (s : Signal) : Prop where
  read : ∀ t ∈ before, readable t
  listed : ∀ t ∈ before, (entry t).isSome = true
  here : readable s
  missing : entry s = none

/-- The loop ends at a signal after another one has added a variable. -/
def AddedPartly (readable : Signal → Prop) (entry : Signal → Option (List ExportedVariable))
    (signals : List Signal) : Prop :=
  ∃ before s after, signals = before ++ s :: after ∧ StopsAt readable entry before s ∧
    ∃ t ∈ before, entry t ≠ some []

section Loop

variable {α : Type} {describe : α → ExportedVariable} {round : Signal → Go (Round α)}
  {entry : Signal → Option (List ExportedVariable)} {readable : Signal → Prop}
  {signals before : List Signal} {s : Signal}

theorem StopsAt.eachSignal (stops : StopsAt readable entry before s) (after : List Signal)
    (exports : ∀ s, readable s → Exports describe (round s) (entry s)) :
    ∃ added error, eachSignal round (before ++ s :: after) = .ok (added, some error) ∧
      added.map describe = before.flatMap fun t => (entry t).getD [] := by
  obtain ⟨read, listed, here, missing⟩ := stops
  induction before with
  | nil =>
      have stopped := exports s here
      rw [missing] at stopped
      obtain ⟨error, stopped⟩ := stopped
      refine ⟨[], error, ?_, rfl⟩
      simp [Generate.eachSignal, stopped, pure_eq_ok]
  | cons t before ih =>
      rw [List.forall_mem_cons] at read listed
      obtain ⟨vars, first⟩ := Option.isSome_iff_exists.mp listed.1
      have ran := exports t read.1
      rw [first] at ran
      obtain ⟨added, ran, same⟩ := ran
      obtain ⟨rest, error, later, all⟩ := ih read.2 listed.2
      refine ⟨added ++ rest, error, ?_, ?_⟩
      · simp [Generate.eachSignal, ran, later]
      · simp [first, same, all]

theorem stopsAt_of_eachSignal (reads : ∀ s r, round s = .ok r → readable s)
    (exports : ∀ s, readable s → Exports describe (round s) (entry s)) {added : List α}
    {error : String} (ran : eachSignal round signals = .ok (added, some error)) :
    ∃ before s after, signals = before ++ s :: after ∧ StopsAt readable entry before s := by
  induction signals generalizing added with
  | nil => cases ran
  | cons s signals ih =>
      obtain ⟨r, first, ran⟩ := bind_eq_ok.mp ran
      have here := reads s r first
      have exported := exports s here
      cases listed : entry s with
      | none =>
          refine ⟨[], s, signals, rfl, ?_, ?_, here, listed⟩
          · simp
          · simp
      | some vars =>
          rw [listed] at exported
          obtain ⟨mine, again, _⟩ := exported
          cases first.symm.trans again
          obtain ⟨⟨rest, last⟩, later, ran⟩ := bind_eq_ok.mp ran
          cases ran
          obtain ⟨before, t, after, same, stops⟩ := ih later
          refine ⟨s :: before, t, after, ?_, ?_, ?_, stops.here, stops.missing⟩
          · simp [same]
          · exact List.forall_mem_cons.mpr ⟨here, stops.read⟩
          · refine List.forall_mem_cons.mpr ⟨?_, stops.listed⟩
            rw [listed]
            rfl

/-- What is added before the end of a loop comes from a signal before it. -/
theorem flatMap_entry_eq_nil_iff (listed : ∀ t ∈ before, (entry t).isSome = true) :
    (before.flatMap fun t => (entry t).getD []) = [] ↔ ¬ ∃ t ∈ before, entry t ≠ some [] := by
  simp only [List.flatMap_eq_nil_iff, not_exists, not_and, not_not]
  constructor
  · intro none t member
    obtain ⟨vars, found⟩ := Option.isSome_iff_exists.mp (listed t member)
    have empty := none t member
    rw [found, Option.getD_some] at empty
    rw [found, empty]
  · intro none t member
    rw [none t member]
    rfl

/-- A builder that adds what its loop adds keeps the model description exactly when the group
is not added partly. -/
theorem unchanged_iff {M : Type} {md : M} {grow : List α → M}
    (same : ∀ added, grow added = md ↔ added = [])
    (reads : ∀ s r, round s = .ok r → readable s)
    (exports : ∀ s, readable s → Exports describe (round s) (entry s)) :
    Unchanged md (eachSignal round signals >>= fun result => .ok (grow result.1, result.2)) ↔
      ¬ AddedPartly readable entry signals := by
  constructor
  · rintro kept ⟨before, s, after, rfl, stops, adds⟩
    obtain ⟨added, error, ran, all⟩ := stops.eachSignal after exports
    have unchanged := kept (grow added) error (by rw [ran]; rfl)
    rw [(same added).mp unchanged, List.map_nil] at all
    exact (flatMap_entry_eq_nil_iff stops.listed).mp all.symm adds
  · intro whole md' error ran
    obtain ⟨⟨added, stop⟩, loop, ran⟩ := bind_eq_ok.mp ran
    cases ran
    obtain ⟨before, s, after, rfl, stops⟩ := stopsAt_of_eachSignal reads exports loop
    obtain ⟨others, stop, again, all⟩ := stops.eachSignal after exports
    cases again.symm.trans loop
    have empty := (flatMap_entry_eq_nil_iff stops.listed).mpr fun adds =>
      whole ⟨before, s, after, rfl, stops, adds⟩
    rw [empty, List.map_eq_nil_iff] at all
    exact (same added).mpr all

/-- Variables that are added one by one do not leave a model description as it was. -/
theorem foldl_eq_self_iff {M : Type} {exported : M → List ExportedVariable} {add : M → α → M}
    (adds : ∀ md v, (exported (add md v)).Perm (exported md ++ [describe v])) (added : List α)
    (md : M) : added.foldl add md = md ↔ added = [] := by
  constructor
  · intro unchanged
    have lengths := (foldl_refs adds added md).length_eq
    rw [unchanged, List.length_append, List.length_map] at lengths
    apply List.eq_nil_of_length_eq_zero
    omega
  · rintro rfl
    rfl

end Loop

namespace Fmi2

/-- A signal whose causality is missing or a string. -/
structure RoundReadable (s : Signal) : Prop where
  annotated : s.annotations.isSome = true
  causality : valueOf s "fmi_variable_causality" = none ∨
    isString (valueOf s "fmi_variable_causality") = true

/-- The variable of a signal with a causality; the loop ends where its reference is missing. -/
def roundExported (s : Signal) : Option (List ExportedVariable) :=
  match valueOf s "fmi_variable_causality" with
  | none => some []
  | some causality =>
      (valueOf s "fmi_variable_vref").map fun vref =>
        [⟨s.signal, scalarVref vref, textOf (some causality)⟩]

theorem exports_roundExported {s : Signal} (readable : RoundReadable s) :
    Exports ScalarVariable.exported (scalarRound s) (roundExported s) := by
  obtain ⟨anns, stored⟩ := Option.isSome_iff_exists.mp readable.annotated
  obtain ⟨tools, annotated⟩ := annotationsFromSignal_ok stored
  have given := readable.causality
  simp only [valueOf_eq stored] at given
  simp only [scalarRound, roundExported, Signal.annotation_eq stored, ok_bind, valueOf_eq stored]
  rcases given with absent | text
  · rw [absent]
    exact ⟨[], rfl, rfl⟩
  · obtain ⟨causality, found⟩ := eq_string_of_isString text
    simp only [found, Value.asString_string, ok_bind]
    cases anns.get "fmi_variable_vref" with
    | none => exact ⟨_, rfl⟩
    | some vref =>
        simp only [annotated, ok_bind]
        exact ⟨_, rfl, rfl⟩

theorem roundReadable_of_scalarRound {s : Signal} {round : Round ScalarVariable}
    (ran : scalarRound s = .ok round) : RoundReadable s := by
  obtain ⟨causality, found, ran⟩ := bind_eq_ok.mp ran
  obtain ⟨anns, stored, _⟩ := bind_eq_ok.mp found
  refine ⟨by rw [eq_some_of_deref stored]; rfl, ?_⟩
  rw [annotation_eq_ok found]
  cases causality with
  | none => exact .inl rfl
  | some causality =>
      obtain ⟨text, string, _⟩ := bind_eq_ok.mp ran
      rw [asString_eq_ok string]
      exact .inr rfl

end Fmi2

/-- A group that is skipped with an error has added nothing exactly when no signal before
the one at which the builder ends adds a variable. -/
theorem skipped_unchanged_iff (md2 : Fmi2.ModelDescription) (md3 : Fmi3.ModelDescription)
    (signals : List Signal) :
    (Unchanged md2 (Fmi2.scalarSignal md2 signals) ↔
        ¬ AddedPartly Fmi2.RoundReadable Fmi2.roundExported signals) ∧
      (Unchanged md2 (Fmi2.binarySignal md2 signals) ↔
        ¬ AddedPartly BusReadable busExported signals) ∧
      (Unchanged md3 (Fmi3.scalarSignal md3 signals) ↔
        ¬ AddedPartly ScalarReadable scalarExported signals) ∧
      (Unchanged md3 (Fmi3.binarySignal md3 signals) ↔
        ¬ AddedPartly BusReadable busExported signals) := by
  refine ⟨?_, ?_, ?_, ?_⟩
  · exact unchanged_iff (foldl_eq_self_iff Fmi2.exported_addVariable · md2)
      (fun _ _ => Fmi2.roundReadable_of_scalarRound) (fun _ => Fmi2.exports_roundExported)
  · exact unchanged_iff (foldl_eq_self_iff Fmi2.exported_addVariable · md2)
      (fun _ _ => Fmi2.busBuilder.busRound_readable) (fun _ => Fmi2.busBuilder.busRound_exports)
  · exact unchanged_iff (foldl_eq_self_iff Fmi3.exported_addFloat64 · md3)
      (fun _ _ => Fmi3.scalarRound_readable) (fun _ => Fmi3.scalarRound_exports)
  · exact unchanged_iff (foldl_eq_self_iff Fmi3.exported_addBinary · md3)
      (fun _ _ => Fmi3.busBuilder.busRound_readable) (fun _ => Fmi3.busBuilder.busRound_exports)

def outputSignal (name : String) (vref : Option Int) : Signal where
  signal := name
  annotations :=
    let anns := (∅ : Annotations).insert "fmi_variable_causality" (.string "output")
    some (match vref with
      | none => anns
      | some vref => anns.insert "fmi_variable_vref" (.int vref))

/-- The first signal of a group that is skipped stays in the model description. -/
theorem scalarSignal_skippedPartly :
    ¬ Unchanged (Fmi2.setGeneralFmuXmlFields [])
        (Fmi2.scalarSignal (Fmi2.setGeneralFmuXmlFields [])
          [outputSignal "first" (some 1), outputSignal "second" none]) := by
  intro kept
  have unchanged := kept _ _ rfl
  have lengths := congrArg (fun md => md.outputs.length) unchanged
  cases lengths

end DseFmi.Generate
