import DseFmi.Generate.VersionAgreement
import DseFmi.Library.Positions

/-!
# The agreement of the two versions

Both versions export the same variables and channels for an index of signal groups exactly
when the second one reads all selected groups and those with the label `index` add nothing.
-/

namespace DseFmi.Generate

open DseFmi.Library

/-- Both versions end, with the same variables but for the time and with the same channels. -/
def Agree (fmi2 : Go (Fmi2.ModelDescription × List String))
    (fmi3 : Go (Fmi3.ModelDescription × List String)) : Prop :=
  ∃ md2 md3 channels, fmi2 = .ok (md2, channels) ∧ fmi3 = .ok (md3, channels) ∧
    (Fmi3.exported md3).Perm (Fmi3.time.exported :: Fmi2.exported md2)

def selectedDocs (signalGroups : String) (docs : List SignalGroupDoc) : List SignalGroupDoc :=
  docs.filter (SignalGroupDoc.selected (filterNames signalGroups))

/-- The selected groups can be read; those with the label `index` export nothing, and the
others have the same channels, in the order of their first occurrences. -/
structure VersionsMatch (selected : List SignalGroupDoc) : Prop where
  readable : ∀ doc ∈ selected, doc.Readable
  index : ∀ doc ∈ selected, doc.hasIndex = true → doc.exported = []
  channels : (selected.map SignalGroupDoc.channel).eraseDups =
    ((selected.filter fun doc => !doc.hasIndex).map SignalGroupDoc.channel).eraseDups

section Loop

variable {M : Type} {exported : M → List ExportedVariable} {adds : SignalGroupDoc → Bool}
  {round : M → ObjectMetadata → List Signal → Go M} {docs : List SignalGroupDoc}

def addChannels (channels : List String) (docs : List SignalGroupDoc) : List String :=
  docs.foldl (fun channels doc => doc.metadata.addChannel channels) channels

theorem addChannels_nil (docs : List SignalGroupDoc) :
    addChannels [] docs = (docs.map SignalGroupDoc.channel).eraseDups := by
  rw [← foldl_append_new, List.foldl_map]
  rfl

theorem eachDoc_exports
    (spec : ∀ doc ∈ docs.filter adds, ∀ md, ∃ md', round md doc.metadata doc.signals = .ok md' ∧
      (exported md').Perm (exported md ++ doc.exported)) (md : M) (channels : List String) :
    ∃ md', eachDoc adds round (md, channels) docs =
        .ok (md', addChannels channels (docs.filter adds)) ∧
      (exported md').Perm (exported md ++ (docs.filter adds).flatMap SignalGroupDoc.exported) := by
  induction docs generalizing md channels with
  | nil =>
      refine ⟨md, rfl, ?_⟩
      rw [List.filter_nil, List.flatMap_nil, List.append_nil]
  | cons doc docs ih =>
      rw [eachDoc]
      by_cases added : adds doc = true
      · rw [List.filter_cons_of_pos added] at spec ⊢
        obtain ⟨after, ran, first⟩ := spec doc List.mem_cons_self md
        obtain ⟨md', rest, all⟩ := ih (fun other member =>
          spec other (List.mem_cons_of_mem doc member)) after (doc.metadata.addChannel channels)
        rw [if_pos added, ran, ok_bind, rest]
        refine ⟨md', rfl, ?_⟩
        rw [List.flatMap_cons, ← List.append_assoc]
        exact all.trans (first.append_right _)
      · rw [List.filter_cons_of_neg added] at spec ⊢
        rw [if_neg added]
        exact ih spec md channels

theorem eachDoc_readable
    (reads : ∀ (doc : SignalGroupDoc) md md', round md doc.metadata doc.signals = .ok md' →
      doc.Readable) {md : M}
    {channels : List String} {result : M × List String}
    (ran : eachDoc adds round (md, channels) docs = .ok result) :
    ∀ doc ∈ docs.filter adds, doc.Readable := by
  induction docs generalizing md channels with
  | nil => exact fun _ member => absurd member List.not_mem_nil
  | cons doc docs ih =>
      rw [eachDoc] at ran
      by_cases added : adds doc = true
      · rw [if_pos added] at ran
        obtain ⟨after, first, ran⟩ := bind_eq_ok.mp ran
        rw [List.filter_cons_of_pos added]
        intro other member
        rcases List.mem_cons.mp member with rfl | later
        · exact reads _ _ _ first
        · exact ih ran other later
      · rw [if_neg added] at ran
        rw [List.filter_cons_of_neg added]
        exact ih ran

end Loop

section Versions

variable {signalGroups : String} {docs : List SignalGroupDoc}

theorem filter_selected_plain :
    docs.filter (fun doc => doc.selected (filterNames signalGroups) && !doc.hasIndex) =
      (selectedDocs signalGroups docs).filter fun doc => !doc.hasIndex := by
  rw [selectedDocs, List.filter_filter]
  apply List.filter_congr
  intro doc _
  exact Bool.and_comm _ _

theorem Fmi2.variablesFromSignalgroups_exports
    (readable : ∀ doc ∈ selectedDocs signalGroups docs, doc.Readable) :
    let plain := (selectedDocs signalGroups docs).filter fun doc => !doc.hasIndex
    ∃ md, variablesFromSignalgroups (setGeneralFmuXmlFields []) signalGroups docs =
        .ok (md, addChannels [] plain) ∧
      (exported md).Perm (plain.flatMap SignalGroupDoc.exported) := by
  dsimp only
  rw [← filter_selected_plain]
  apply eachDoc_exports
  intro doc member md
  rw [filter_selected_plain] at member
  exact groupVariables_exports (readable doc (List.mem_filter.mp member).1) md

theorem Fmi3.variablesFromSignalgroups_exports
    (readable : ∀ doc ∈ selectedDocs signalGroups docs, doc.Readable) :
    ∃ md, variablesFromSignalgroups (setGeneralFmuXmlFields []) signalGroups docs =
        .ok (md, addChannels [] (selectedDocs signalGroups docs)) ∧
      (exported md).Perm
        (time.exported :: (selectedDocs signalGroups docs).flatMap SignalGroupDoc.exported) :=
  eachDoc_exports (fun doc member md => groupVariables_exports (readable doc member) md) _ []

/-- The versions agree on an index and a filter exactly when the selected groups can be read,
and those with the label `index` export nothing and leave the channels as they are. -/
theorem variablesFromSignalgroups_agree_iff (signalGroups : String) (docs : List SignalGroupDoc) :
    Agree (Fmi2.variablesFromSignalgroups (Fmi2.setGeneralFmuXmlFields []) signalGroups docs)
        (Fmi3.variablesFromSignalgroups (Fmi3.setGeneralFmuXmlFields []) signalGroups docs) ↔
      VersionsMatch (selectedDocs signalGroups docs) := by
  constructor
  · rintro ⟨md2, md3, channels, ran2, ran3, same⟩
    have readable := eachDoc_readable (fun _ _ _ => Fmi3.groupVariables_readable) ran3
    obtain ⟨_, first, plain⟩ := Fmi2.variablesFromSignalgroups_exports readable
    obtain ⟨_, second, all⟩ := Fmi3.variablesFromSignalgroups_exports readable
    cases ran2.symm.trans first
    obtain ⟨rfl, listed⟩ := Prod.mk.inj (Except.ok.inj (ran3.symm.trans second))
    refine ⟨readable, ?_, ?_⟩
    · have exports := (all.symm.trans (same.trans (plain.cons _))).cons_inv
      intro doc member hasIndex
      exact flatMap_perm_filter_iff.mp exports doc member (by rw [hasIndex]; rfl)
    · rw [← addChannels_nil, ← addChannels_nil, listed]
  · rintro ⟨readable, index, channels⟩
    obtain ⟨md2, first, plain⟩ := Fmi2.variablesFromSignalgroups_exports readable
    obtain ⟨md3, second, all⟩ := Fmi3.variablesFromSignalgroups_exports readable
    rw [addChannels_nil] at first second
    rw [channels] at second
    refine ⟨md2, md3, _, first, second, all.trans (List.Perm.cons _ (.trans ?_ plain.symm))⟩
    apply flatMap_perm_filter_iff.mpr
    intro doc member hasIndex
    exact index doc member (by simpa using hasIndex)

/-- A scalar output with a reference, and perhaps without a causality. -/
def scalarOutput (annotations : Annotations) : Signal where
  signal := "scalar_out"
  annotations := some (annotations.insert "fmi_variable_vref" (.int 1))

def scalarDoc (labels : AList fun _ : String => String) (annotations : Annotations) :
    SignalGroupDoc where
  name := "scalar"
  annotations := ∅
  labels
  signals := [scalarOutput annotations]

def indexDoc : SignalGroupDoc :=
  scalarDoc ((∅ : AList fun _ : String => String).insert "index" "1")
    ((∅ : Annotations).insert "fmi_variable_causality" (.string "output"))

/-- A group with the label `index` is exported by the second version only, and a signal
without a causality ends it. -/
theorem variablesFromSignalgroups_disagree :
    ¬ Agree (Fmi2.variablesFromSignalgroups (Fmi2.setGeneralFmuXmlFields []) "" [indexDoc])
        (Fmi3.variablesFromSignalgroups (Fmi3.setGeneralFmuXmlFields []) "" [indexDoc]) ∧
      (∃ result, Fmi2.variablesFromSignalgroups (Fmi2.setGeneralFmuXmlFields []) ""
        [scalarDoc ∅ ∅] = .ok result) ∧
      Fmi3.variablesFromSignalgroups (Fmi3.setGeneralFmuXmlFields []) "" [scalarDoc ∅ ∅] =
        .error .interfaceConversion := by
  refine ⟨?_, ⟨_, rfl⟩, rfl⟩
  rintro ⟨md2, md3, channels, ran2, ran3, same⟩
  cases ran2
  cases ran3

end Versions

end DseFmi.Generate
