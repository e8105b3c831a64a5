import DseFmi.FmiGateway.CollectedParameters

/-!
# The parameters of a model description of FMI 3

The strings are the collected parameters alone. Reals of a signal group have no
annotations.
-/

namespace DseFmi.FmiGateway.Fmi3

open DseFmi.Generate DseFmi.Generate.Fmi3 DseFmi.Library

/-- A model description with the same strings and more reals, all of them with a property. -/
structure Extends (good : Fmi3.Float → Prop) (md md' : ModelDescription) : Prop where
  annotations : md'.annotations = md.annotations
  string : md'.string = md.string
  float64 : ∃ added, md'.float64 = md.float64 ++ added ∧ ∀ v ∈ added, good v

section Extends

variable {good : Fmi3.Float → Prop} {md md' md'' : ModelDescription}

theorem Extends.refl (good : Fmi3.Float → Prop) (md : ModelDescription) : Extends good md md :=
  ⟨rfl, rfl, [], (List.append_nil _).symm, fun _ member => absurd member List.not_mem_nil⟩

theorem Extends.trans (first : Extends good md md') (second : Extends good md' md'') :
    Extends good md md'' := by
  obtain ⟨added, listed, all⟩ := first.float64
  obtain ⟨more, listed', all'⟩ := second.float64
  refine ⟨second.annotations.trans first.annotations, second.string.trans first.string,
    added ++ more, ?_, ?_⟩
  · rw [listed', listed, List.append_assoc]
  · intro v member
    cases List.mem_append.mp member with
    | inl here => exact all v here
    | inr there => exact all' v there

theorem extends_addFloat64 {v : Fmi3.Float} (holds : good v) :
    Extends good md (addFloat64 md v) := by
  have all : ∀ w ∈ [v], good w := fun w member => List.mem_singleton.mp member ▸ holds
  rw [addFloat64]
  split
  · exact ⟨rfl, rfl, [v], rfl, all⟩
  · exact ⟨rfl, rfl, [v], rfl, all⟩

theorem extends_addBinary (v : Binary) : Extends good md (addBinary md v) := by
  have none : ∀ v ∈ ([] : List Fmi3.Float), good v := fun _ member =>
    absurd member List.not_mem_nil
  rw [addBinary]
  split
  · exact ⟨rfl, rfl, [], (List.append_nil _).symm, none⟩
  · exact ⟨rfl, rfl, [], (List.append_nil _).symm, none⟩

theorem extends_foldl {α : Type} {add : ModelDescription → α → ModelDescription} {added : List α}
    (step : ∀ v ∈ added, ∀ md, Extends good md (add md v)) :
    Extends good md (added.foldl add md) := by
  induction added generalizing md with
  | nil => exact .refl good md
  | cons v added ih =>
      apply (step v List.mem_cons_self md).trans
      apply ih
      intro w later
      exact step w (List.mem_cons_of_mem v later)

end Extends

theorem float64_foldl (added : List Fmi3.Float) (md : ModelDescription) :
    (added.foldl addFloat64 md).float64 = md.float64 ++ added := by
  induction added generalizing md with
  | nil => exact (List.append_nil _).symm
  | cons v added ih =>
      have first : (addFloat64 md v).float64 = md.float64 ++ [v] := by
        rw [addFloat64]
        split
        · rfl
        · rfl
      rw [List.foldl_cons, ih, first, List.append_assoc]
      rfl

/-- Adding strings changes nothing else that the gateway reads. -/
theorem string_foldl (added : List Binary) (md : ModelDescription) :
    (added.foldl addString md).string = md.string ++ added ∧
      (added.foldl addString md).float64 = md.float64 ∧
      (added.foldl addString md).annotations = md.annotations := by
  induction added generalizing md with
  | nil => exact ⟨(List.append_nil _).symm, rfl, rfl⟩
  | cons v added ih =>
      have first : (addString md v).string = md.string ++ [v] ∧
          (addString md v).float64 = md.float64 ∧
          (addString md v).annotations = md.annotations := by
        rw [addString]
        split
        · exact ⟨rfl, rfl, rfl⟩
        · exact ⟨rfl, rfl, rfl⟩
      obtain ⟨string, float64, annotations⟩ := ih (addString md v)
      rw [List.foldl_cons, string, float64, annotations, first.1, first.2.1, first.2.2,
        List.append_assoc]
      exact ⟨rfl, rfl, rfl⟩

theorem scalarRound_parameter (name : String) (vref : Nat) (start : Option String)
    (key : String) :
    let s := parameter name vref start key
    ∃ v, scalarRound s = .ok (.add [v]) ∧
      fmi3RealParameter v = some (describedParameter .real s) := by
  cases start with
  | none => exact ⟨_, rfl, rfl⟩
  | some start => exact ⟨_, rfl, rfl⟩

theorem stringRound_parameter (name : String) (vref : Nat) (start : Option String)
    (key : String) :
    let s := parameter name vref start key
    ∃ v, stringRound s = .ok (.add [v]) ∧
      fmi3StringParameter v = some (describedParameter .string s) := by
  cases start with
  | none => exact ⟨_, rfl, rfl⟩
  | some start => exact ⟨_, rfl, rfl⟩

/-- A real without annotations, which no path of the gateway selects. -/
def Unselected (v : Fmi3.Float) : Prop := v.annotations = none

theorem unselected_scalarRound {s : Signal} (unannotated : Unannotated s) {vars : List Fmi3.Float}
    (ran : scalarRound s = .ok (.add vars)) : ∀ v ∈ vars, Unselected v := by
  obtain ⟨anns, stored, missing⟩ := unannotated
  obtain ⟨causality, _, ran⟩ := bind_eq_ok.mp ran
  obtain ⟨startValue, _, ran⟩ := bind_eq_ok.mp ran
  obtain ⟨start, _, ran⟩ := bind_eq_ok.mp ran
  obtain ⟨vref, _, ran⟩ := bind_eq_ok.mp ran
  cases vref with
  | none => cases ran
  | some vref =>
      obtain ⟨number, _, ran⟩ := bind_eq_ok.mp ran
      obtain ⟨annotations, found, ran⟩ := bind_eq_ok.mp ran
      cases ran
      rw [annotationsFromSignal, Signal.annotation_eq stored, missing] at found
      cases found
      intro v member
      rw [List.mem_singleton.mp member]
      rfl

theorem annotations_of_unselected {v : Fmi3.Float} (unselected : Unselected v) {p : XmlParameter}
    (selected : fmi3RealParameter v = some p) : p.annotations = [] := by
  rw [fmi3RealParameter, XmlParameter.ofCausality, unselected] at selected
  split at selected
  · cases selected
    rfl
  · cases selected

theorem groupVariables_unselected {sg : SignalGroup} (unannotated : GroupUnannotated sg)
    {metadata : ObjectMetadata} (stored : sg.metadata = some metadata)
    {md md' : ModelDescription} (ran : groupVariables md metadata sg.signals = .ok md') :
    Extends Unselected md md' := by
  cases binary : metadata.isBinary with
  | true =>
      rw [groupVariables, binary] at ran
      obtain ⟨⟨result, error⟩, loop, ran⟩ := bind_eq_ok.mp ran
      cases ran
      obtain ⟨⟨added, stop⟩, loop, same⟩ := bind_eq_ok.mp loop
      cases same
      apply extends_foldl
      intro v _ md
      exact extends_addBinary v
  | false =>
      rw [groupVariables, binary] at ran
      obtain ⟨⟨result, error⟩, loop, ran⟩ := bind_eq_ok.mp ran
      cases ran
      obtain ⟨⟨added, stop⟩, loop, same⟩ := bind_eq_ok.mp loop
      cases same
      have all : ∀ v ∈ added, Unselected v := by
        refine eachSignal_forall ?_ loop
        intro s member vars round
        exact unselected_scalarRound (unannotated metadata stored binary s member) round
      apply extends_foldl
      intro v member md
      exact extends_addFloat64 (all v member)

theorem variablesFromSignalGroupObject_unselected {groups : List SignalGroup}
    (unannotated : ∀ sg ∈ groups, GroupUnannotated sg) {md md' : ModelDescription}
    {channels : List String}
    (ran : variablesFromSignalGroupObject md groups = .ok (md', channels)) :
    Extends Unselected md md' := by
  apply eachGroup_invariant _ (Extends.refl Unselected md) ran
  intro sg member metadata before after stored round extended
  exact extended.trans (groupVariables_unselected (unannotated sg member) stored round)

theorem buildFmi3XmlSignals_listed {c : Gateway}
    (realParameters : ∀ s ∈ c.realParams, GatewayParameter s)
    (stringParameters : ∀ s ∈ c.stringParams, GatewayParameter s)
    (unannotated : ∀ sg ∈ c.signalGroupFile, GroupUnannotated sg)
    {annotations : List (String × String)} {md : ModelDescription} {channels : List String}
    (ran : c.buildFmi3XmlSignals (setGeneralFmuXmlFields annotations) = .ok (md, channels)) :
    ListedIn c annotations (.fmi3 md) := by
  obtain ⟨⟨real, _⟩, hreal, ran⟩ := bind_eq_ok.mp ran
  obtain ⟨⟨string, _⟩, hstring, ran⟩ := bind_eq_ok.mp ran
  obtain ⟨⟨reals, _⟩, real_loop, hreal⟩ := bind_eq_ok.mp hreal
  obtain ⟨⟨strings, _⟩, string_loop, hstring⟩ := bind_eq_ok.mp hstring
  cases hreal
  cases hstring
  have extended := variablesFromSignalGroupObject_unselected unannotated ran
  obtain ⟨grouped, listed, unselected⟩ := extended.float64
  have added_real : Extends (fun _ => True) (setGeneralFmuXmlFields annotations)
      (reals.foldl addFloat64 (setGeneralFmuXmlFields annotations)) := by
    apply extends_foldl
    intro v _ md
    exact extends_addFloat64 trivial
  obtain ⟨added_string, same_real, same_annotations⟩ := string_foldl strings
    (reals.foldl addFloat64 (setGeneralFmuXmlFields annotations))
  have string_listed : md.string = strings := by
    rw [extended.string, added_string, added_real.string]
    rfl
  have real_listed : md.float64 = reals ++ grouped := by
    rw [listed, same_real, float64_foldl]
    rfl
  have real_described : reals.filterMap fmi3RealParameter =
      c.realParams.map (describedParameter .real) := by
    apply eachSignal_listed _ real_loop
    intro s member
    obtain ⟨name, vref, start, key, rfl⟩ := realParameters s member
    exact scalarRound_parameter name vref start key
  have string_described : strings.filterMap fmi3StringParameter =
      c.stringParams.map (describedParameter .string) := by
    apply eachSignal_listed _ string_loop
    intro s member
    obtain ⟨name, vref, start, key, rfl⟩ := stringParameters s member
    exact stringRound_parameter name vref start key
  refine ⟨?_, ?_, grouped.filterMap fmi3RealParameter, ?_, ?_⟩
  · rw [configAnnotations, extended.annotations, same_annotations, added_real.annotations]
    exact annotations_getD annotations
  · rw [xmlParameters, string_listed]
    exact string_described
  · rw [xmlParameters, real_listed, List.filterMap_append, real_described]
  · intro p member
    obtain ⟨v, listed, selected⟩ := List.mem_filterMap.mp member
    exact annotations_of_unselected (unselected v listed) selected

end DseFmi.FmiGateway.Fmi3
