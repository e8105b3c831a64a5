import DseFmi.FmiGateway.CollectedParameters

/-!
# The parameters of a model description of FMI 2

The parameters a gateway reads are those the generator collected. No variable of a signal
group is among them, unless it is a real without annotations.
-/

namespace DseFmi.FmiGateway.Fmi2

open DseFmi.Generate DseFmi.Generate.Fmi2 DseFmi.Library

theorem scalarVariable_foldl (added : List ScalarVariable) (md : ModelDescription) :
    (added.foldl addVariable md).scalarVariable = md.scalarVariable ++ added ∧
      (added.foldl addVariable md).vendorAnnotations = md.vendorAnnotations := by
  induction added generalizing md with
  | nil => exact ⟨(List.append_nil _).symm, rfl⟩
  | cons v added ih =>
      obtain ⟨listed, annotations⟩ := ih (addVariable md v)
      have first : (addVariable md v).scalarVariable = md.scalarVariable ++ [v] ∧
          (addVariable md v).vendorAnnotations = md.vendorAnnotations := by
        rw [addVariable]
        split
        · exact ⟨rfl, rfl⟩
        · exact ⟨rfl, rfl⟩
      rw [List.foldl_cons, listed, annotations, first.1, first.2, List.append_assoc]
      exact ⟨rfl, rfl⟩

def Unselected (v : ScalarVariable) : Prop :=
  fmi2Parameter .string v = none ∧ ∀ p, fmi2Parameter .real v = some p → p.annotations = []

theorem fmi2Parameter_real {v : ScalarVariable} {start : String} (type : v.type = .string start) :
    fmi2Parameter .real v = none := by
  simp only [fmi2Parameter, type]

theorem fmi2Parameter_string {v : ScalarVariable} {start : String} (type : v.type = .real start) :
    fmi2Parameter .string v = none := by
  simp only [fmi2Parameter, type]

theorem scalarRound_parameter (name : String) (vref : Nat) (start : Option String)
    (key : String) :
    let s := parameter name vref start key
    ∃ v, scalarRound s = .ok (.add [v]) ∧
      fmi2Parameter .real v = some (describedParameter .real s) := by
  cases start with
  | none => exact ⟨_, rfl, rfl⟩
  | some start => exact ⟨_, rfl, rfl⟩

theorem stringRound_parameter (name : String) (vref : Nat) (start : Option String)
    (key : String) :
    let s := parameter name vref start key
    ∃ v, stringRound s = .ok (.add [v]) ∧
      fmi2Parameter .string v = some (describedParameter .string s) := by
  cases start with
  | none => exact ⟨_, rfl, rfl⟩
  | some start => exact ⟨_, rfl, rfl⟩

theorem scalarRound_added {s : Signal} {vars : List ScalarVariable}
    (ran : scalarRound s = .ok (.add vars)) :
    ∀ v ∈ vars, (∃ start, v.type = .real start) ∧ annotationsFromSignal s = .ok v.annotations := by
  obtain ⟨causality, _, ran⟩ := bind_eq_ok.mp ran
  cases causality with
  | none =>
      cases ran
      exact fun _ member => absurd member List.not_mem_nil
  | some causality =>
      obtain ⟨text, _, ran⟩ := bind_eq_ok.mp ran
      obtain ⟨start, _, ran⟩ := bind_eq_ok.mp ran
      obtain ⟨vref, _, ran⟩ := bind_eq_ok.mp ran
      cases vref with
      | none => cases ran
      | some vref =>
          obtain ⟨annotations, found, ran⟩ := bind_eq_ok.mp ran
          cases ran
          intro v member
          rw [List.mem_singleton.mp member]
          exact ⟨⟨_, rfl⟩, found⟩

theorem stringRound_added {s : Signal} {vars : List ScalarVariable}
    (ran : stringRound s = .ok (.add vars)) : ∀ v ∈ vars, ∃ start, v.type = .string start := by
  obtain ⟨causality, _, ran⟩ := bind_eq_ok.mp ran
  cases causality with
  | none =>
      cases ran
      exact fun _ member => absurd member List.not_mem_nil
  | some causality =>
      obtain ⟨text, _, ran⟩ := bind_eq_ok.mp ran
      obtain ⟨startValue, _, ran⟩ := bind_eq_ok.mp ran
      obtain ⟨start, _, ran⟩ := bind_eq_ok.mp ran
      obtain ⟨vref, _, ran⟩ := bind_eq_ok.mp ran
      cases vref with
      | none => cases ran
      | some vref =>
          obtain ⟨number, _, ran⟩ := bind_eq_ok.mp ran
          obtain ⟨annotations, _, ran⟩ := bind_eq_ok.mp ran
          cases ran
          intro v member
          rw [List.mem_singleton.mp member]
          exact ⟨_, rfl⟩

theorem annotationsFromSignal_unannotated {s : Signal} (unannotated : Unannotated s) :
    annotationsFromSignal s = .ok none := by
  obtain ⟨anns, stored, missing⟩ := unannotated
  rw [annotationsFromSignal, Signal.annotation_eq stored, missing]
  rfl

theorem unselected_scalarRound {s : Signal} (unannotated : Unannotated s)
    {vars : List ScalarVariable} (ran : scalarRound s = .ok (.add vars)) :
    ∀ v ∈ vars, Unselected v := by
  intro v member
  obtain ⟨⟨start, type⟩, annotations⟩ := scalarRound_added ran v member
  refine ⟨fmi2Parameter_string type, ?_⟩
  have none : v.annotations = none :=
    Except.ok.inj (annotations.symm.trans (annotationsFromSignal_unannotated unannotated))
  intro p selected
  simp only [fmi2Parameter, type, none, XmlParameter.ofCausality] at selected
  split at selected
  · cases selected
    rfl
  · cases selected

theorem unselected_buildBinarySignal {s : Signal} {vref : Int} {causality : String} {id : Nat}
    {v : ScalarVariable} (built : buildBinarySignal s vref causality id = .ok v) :
    Unselected v := by
  obtain ⟨busId, _, built⟩ := bind_eq_ok.mp built
  obtain ⟨mimeType, _, built⟩ := bind_eq_ok.mp built
  obtain ⟨encoding, _, built⟩ := bind_eq_ok.mp built
  obtain ⟨startValue, _, built⟩ := bind_eq_ok.mp built
  obtain ⟨start, _, built⟩ := bind_eq_ok.mp built
  cases built
  have direction : (if causality = "rx" then "input" else "output") ≠ "parameter" := by
    split
    · decide
    · decide
  refine ⟨?_, fun p selected => ?_⟩
  · exact if_neg direction
  · cases selected

/-- A model description that has more variables, all of them with a property. -/
structure Extends (good : ScalarVariable → Prop) (md md' : ModelDescription) : Prop where
  annotations : md'.vendorAnnotations = md.vendorAnnotations
  scalarVariable : ∃ added, md'.scalarVariable = md.scalarVariable ++ added ∧ ∀ v ∈ added, good v

section Extends

variable {good : ScalarVariable → Prop} {md md' md'' : ModelDescription}

theorem Extends.refl (good : ScalarVariable → Prop) (md : ModelDescription) :
    Extends good md md :=
  ⟨rfl, [], (List.append_nil _).symm, fun _ member => absurd member List.not_mem_nil⟩

theorem Extends.trans (first : Extends good md md') (second : Extends good md' md'') :
    Extends good md md'' := by
  obtain ⟨added, listed, all⟩ := first.scalarVariable
  obtain ⟨more, listed', all'⟩ := second.scalarVariable
  refine ⟨second.annotations.trans first.annotations, added ++ more, ?_, ?_⟩
  · rw [listed', listed, List.append_assoc]
  · intro v member
    cases List.mem_append.mp member with
    | inl here => exact all v here
    | inr there => exact all' v there

theorem extends_foldl {added : List ScalarVariable} (all : ∀ v ∈ added, good v) :
    Extends good md (added.foldl addVariable md) :=
  ⟨(scalarVariable_foldl added md).2, added, (scalarVariable_foldl added md).1, all⟩

end Extends

theorem groupVariables_unselected {sg : SignalGroup} (unannotated : GroupUnannotated sg)
    {metadata : ObjectMetadata} (stored : sg.metadata = some metadata)
    {md md' : ModelDescription} (ran : groupVariables md metadata sg.signals = .ok md') :
    Extends Unselected md md' := by
  cases binary : metadata.isBinary with
  | true =>
      rw [groupVariables, binary] at ran
      obtain ⟨⟨result, error⟩, loop, ran⟩ := bind_eq_ok.mp ran
      cases ran
      obtain ⟨⟨added, stop⟩, loop, same⟩ := bind_eq_ok.mp loop
      cases same
      apply extends_foldl
      refine eachSignal_forall ?_ loop
      intro s _ vars round
      exact busRound_forall (fun _ _ _ _ _ => unselected_buildBinarySignal) round
  | false =>
      rw [groupVariables, binary] at ran
      obtain ⟨⟨result, error⟩, loop, ran⟩ := bind_eq_ok.mp ran
      cases ran
      obtain ⟨⟨added, stop⟩, loop, same⟩ := bind_eq_ok.mp loop
      cases same
      apply extends_foldl
      refine eachSignal_forall ?_ loop
      intro s member vars round
      exact unselected_scalarRound (unannotated metadata stored binary s member) round

theorem variablesFromSignalGroupObject_unselected {groups : List SignalGroup}
    (unannotated : ∀ sg ∈ groups, GroupUnannotated sg) {md md' : ModelDescription}
    {channels : List String}
    (ran : variablesFromSignalGroupObject md groups = .ok (md', channels)) :
    Extends Unselected md md' := by
  apply eachGroup_invariant _ (Extends.refl Unselected md) ran
  intro sg member metadata before after stored round extended
  exact extended.trans (groupVariables_unselected (unannotated sg member) stored round)

theorem buildFmi2XmlSignals_listed {c : Gateway}
    (realParameters : ∀ s ∈ c.realParams, GatewayParameter s)
    (stringParameters : ∀ s ∈ c.stringParams, GatewayParameter s)
    (unannotated : ∀ sg ∈ c.signalGroupFile, GroupUnannotated sg)
    {annotations : List (String × String)} {md : ModelDescription} {channels : List String}
    (ran : c.buildFmi2XmlSignals (setGeneralFmuXmlFields annotations) = .ok (md, channels)) :
    ListedIn c annotations (.fmi2 md) := by
  obtain ⟨⟨real, _⟩, hreal, ran⟩ := bind_eq_ok.mp ran
  obtain ⟨⟨string, _⟩, hstring, ran⟩ := bind_eq_ok.mp ran
  obtain ⟨⟨reals, _⟩, real_loop, hreal⟩ := bind_eq_ok.mp hreal
  obtain ⟨⟨strings, _⟩, string_loop, hstring⟩ := bind_eq_ok.mp hstring
  cases hreal
  cases hstring
  obtain ⟨same, grouped, listed, unselected⟩ :=
    variablesFromSignalGroupObject_unselected unannotated ran
  have base := scalarVariable_foldl reals (setGeneralFmuXmlFields annotations)
  have listed : md.scalarVariable = reals ++ strings ++ grouped := by
    rw [listed, base.1]
    rfl
  have real_described : reals.filterMap (fmi2Parameter .real) =
      c.realParams.map (describedParameter .real) := by
    apply eachSignal_listed _ real_loop
    intro s member
    obtain ⟨name, vref, start, key, rfl⟩ := realParameters s member
    exact scalarRound_parameter name vref start key
  have string_described : strings.filterMap (fmi2Parameter .string) =
      c.stringParams.map (describedParameter .string) := by
    apply eachSignal_listed _ string_loop
    intro s member
    obtain ⟨name, vref, start, key, rfl⟩ := stringParameters s member
    exact stringRound_parameter name vref start key
  have real_no_string : reals.filterMap (fmi2Parameter .string) = [] := by
    apply List.filterMap_eq_nil_iff.mpr
    refine eachSignal_forall ?_ real_loop
    intro s _ vars round v member
    obtain ⟨start, type⟩ := (scalarRound_added round v member).1
    exact fmi2Parameter_string type
  have string_no_real : strings.filterMap (fmi2Parameter .real) = [] := by
    apply List.filterMap_eq_nil_iff.mpr
    refine eachSignal_forall ?_ string_loop
    intro s _ vars round v member
    obtain ⟨start, type⟩ := stringRound_added round v member
    exact fmi2Parameter_real type
  have grouped_no_string : grouped.filterMap (fmi2Parameter .string) = [] :=
    List.filterMap_eq_nil_iff.mpr fun v member => (unselected v member).1
  refine ⟨?_, ?_, grouped.filterMap (fmi2Parameter .real), ?_, ?_⟩
  · rw [configAnnotations, same]
    show (List.foldl addVariable _ reals).vendorAnnotations.getD [] = _
    rw [base.2, setGeneralFmuXmlFields]
    exact annotations_getD annotations
  · rw [xmlParameters, listed, List.filterMap_append, List.filterMap_append, real_no_string,
      grouped_no_string, List.nil_append, List.append_nil]
    exact string_described
  · rw [xmlParameters, listed, List.filterMap_append, List.filterMap_append, string_no_real,
      List.append_nil, real_described]
  · intro p member
    obtain ⟨v, listed, selected⟩ := List.mem_filterMap.mp member
    exact (unselected v listed).2 p selected

end DseFmi.FmiGateway.Fmi2
