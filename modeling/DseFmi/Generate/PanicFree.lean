import DseFmi.Generate.PatchedGroups

/-!
# Runs of the generator that do not panic

A run ends in a panic where it reads an annotation at another type than its own, or through
a pointer that is `nil`. The steps before decide how far a run gets: a group is only merged
when the parameters are collected, and only built when the version is supported.
-/

namespace DseFmi.Generate

open DseFmi.Library

section Loop

variable {α : Type} {round : Signal → Go (Round α)} {signals : List Signal}

theorem eachSignal_ok (reads : ∀ s ∈ signals, ∃ r, round s = .ok r) :
    ∃ result, eachSignal round signals = .ok result := by
  induction signals with
  | nil => exact ⟨_, rfl⟩
  | cons s signals ih =>
      rw [List.forall_mem_cons] at reads
      obtain ⟨⟨r, first⟩, rest⟩ := reads
      obtain ⟨result, later⟩ := ih rest
      rw [eachSignal, first, ok_bind]
      cases r with
      | stop error => exact ⟨_, rfl⟩
      | add added =>
          simp only [later, ok_bind]
          exact ⟨_, rfl⟩

theorem Exports.ok {describe : α → ExportedVariable} {round : Go (Round α)}
    {entry : Option (List ExportedVariable)} (exports : Exports describe round entry) :
    ∃ r, round = .ok r := by
  cases entry with
  | none =>
      obtain ⟨error, stopped⟩ := exports
      exact ⟨_, stopped⟩
  | some vars =>
      obtain ⟨added, ran, _⟩ := exports
      exact ⟨_, ran⟩

theorem lookedAt_eq_self {entry : Signal → Option (List ExportedVariable)}
    (listed : ∀ s ∈ signals, (entry s).isSome = true) : lookedAt entry signals = signals := by
  induction signals with
  | nil => rfl
  | cons s signals ih =>
      rw [List.forall_mem_cons] at listed
      obtain ⟨vars, first⟩ := Option.isSome_iff_exists.mp listed.1
      rw [lookedAt, first, ih listed.2]
      rfl

/-- The buses of a merged group are read when their texts are. -/
theorem BusBuilder.eachSignal_ok_iff {build : Signal → Int → String → Nat → Go α}
    {describe : α → ExportedVariable} (builder : BusBuilder build describe) {vr : Nat}
    (annotated : ∀ s ∈ signals, s.annotations.isSome = true) :
    (∃ result, eachSignal (busRound build) (signals.map (exportedBus vr)) = .ok result) ↔
      ∀ s ∈ signals, BusDescribed s := by
  have all : lookedAt busExported (signals.map (exportedBus vr)) =
      signals.map (exportedBus vr) := by
    apply lookedAt_eq_self
    rw [List.forall_mem_map]
    intro s _
    rw [busExported_exportedBus]
    rfl
  constructor
  · rintro ⟨result, ran⟩
    have readable := eachSignal_readable (fun _ _ => builder.busRound_readable)
      (fun _ => builder.busRound_exports) ran
    rw [all, List.forall_mem_map] at readable
    intro s member
    exact (busReadable_exportedBus_iff (annotated s member)).mp (readable s member)
  · intro described
    apply eachSignal_ok
    rw [List.forall_mem_map]
    intro s member
    apply Exports.ok
    apply builder.busRound_exports
    exact (busReadable_exportedBus_iff (annotated s member)).mpr (described s member)

end Loop

structure ParameterReadable (s : Signal) : Prop extends ScalarReadable s where
  noStart : valueOf s "fmi_variable_start_value" = none
  given : isInt (valueOf s "fmi_variable_vref") = true

theorem parameterReadable_parameter (name : String) (vref : Nat) (start : Option String)
    (key : String) : ParameterReadable (parameter name vref start key) := by
  have none : valueOf (parameter name vref start key) "fmi_variable_start_value" = none := by
    cases start <;> rfl
  have given : isInt (valueOf (parameter name vref start key) "fmi_variable_vref") = true := by
    cases start <;> rfl
  refine ⟨⟨?_, .inl none, .inr given⟩, none, given⟩
  cases start <;> rfl

structure ParamsReadable (c : Gateway) : Prop where
  real : ∀ s ∈ c.realParams, ParameterReadable s
  string : ∀ s ∈ c.stringParams, ParameterReadable s

theorem ParamsReadable.addParameter {c : Gateway} (readable : ParamsReadable c)
    (type : ParameterType) (name : String) (start : Option String) (key : String) :
    ParamsReadable (c.addParameter type name start key) := by
  have new : ∀ s ∈ [parameter name c.signalIdx start key], ParameterReadable s :=
    List.forall_mem_singleton.mpr (parameterReadable_parameter ..)
  cases type with
  | real => exact ⟨List.forall_mem_append.mpr ⟨readable.real, new⟩, readable.string⟩
  | string => exact ⟨readable.real, List.forall_mem_append.mpr ⟨readable.string, new⟩⟩

theorem ParamsReadable.createRuntime {c : Gateway} (readable : ParamsReadable c)
    (runtime : String) : ParamsReadable (c.createRuntime runtime) := by
  unfold Gateway.createRuntime
  split
  · have named : ParamsReadable { c with annotations := c.annotations } := readable
    have added := (named.addParameter .real "Simer_Command_Selector" none
      simerParameter).addParameter .string "Simer_Command" none simerParameter
    exact ⟨added.real, added.string⟩
  · exact ⟨readable.real, readable.string⟩

theorem paramsReadable_collected : Collected ParamsReadable where
  times _ _ _ _ readable := ⟨readable.real, readable.string⟩
  parameter _ type name start readable :=
    readable.addParameter type name (some start) scriptParameter

theorem paramsReadable_new : ParamsReadable newFmiGatewayCommand := by
  refine ⟨?_, ?_⟩ <;> simp [newFmiGatewayCommand]

theorem stringStart_none (causality : String) : stringStart causality none = .ok "" := rfl

theorem Fmi2.stringRound_ok {s : Signal} (readable : ParameterReadable s) :
    ∃ r, stringRound s = .ok r := by
  obtain ⟨causality, found⟩ := eq_string_of_isString readable.causality
  obtain ⟨vref, given⟩ := eq_int_of_isInt readable.given
  obtain ⟨anns, stored⟩ := annotated_of_valueOf found
  obtain ⟨tools, annotated⟩ := annotationsFromSignal_ok stored
  have noStart := readable.noStart
  rw [valueOf_eq stored] at found given noStart
  simp only [stringRound, Signal.annotation_eq stored, ok_bind, found, Value.asString_string,
    noStart, stringStart_none, given, Value.asInt_int, annotated]
  exact ⟨_, rfl⟩

theorem Fmi3.stringRound_ok {s : Signal} (readable : ParameterReadable s) :
    ∃ r, stringRound s = .ok r := by
  obtain ⟨causality, found⟩ := eq_string_of_isString readable.causality
  obtain ⟨vref, given⟩ := eq_int_of_isInt readable.given
  obtain ⟨anns, stored⟩ := annotated_of_valueOf found
  obtain ⟨items, annotated⟩ := annotationsFromSignal_ok stored
  have noStart := readable.noStart
  rw [valueOf_eq stored] at found given noStart
  simp only [stringRound, Signal.stringAnnotation, Signal.annotation_eq stored, ok_bind, found,
    Value.asString_string, noStart, stringStart_none, given, Value.asInt_int, annotated]
  exact ⟨_, rfl⟩

structure GroupsBuildable (groups : List SignalGroup) : Prop where
  named : ∀ sg ∈ groups, (sg.metadata.bind ObjectMetadata.name).isSome = true
  binary : ∀ sg ∈ groups, sg.isBinary = true → ∀ s ∈ sg.signals, BusDescribed s

section Build

variable {M : Type} {round : M → ObjectMetadata → List Signal → Go M}

/-- A loop over merged groups reads all of them when its rounds do. -/
theorem eachGroup_ok_iff
    (spec : ∀ {sg merged : SignalGroup}, Merges sg merged →
      ∀ {metadata}, merged.metadata = some metadata →
        ∀ md, (∃ md', round md metadata merged.signals = .ok md') ↔
          (sg.isBinary = true → ∀ s ∈ sg.signals, BusDescribed s))
    {groups merged : List SignalGroup} (merges : List.Forall₂ Merges groups merged)
    {md : M} {channels : List String} :
    (∃ result, eachGroup round (md, channels) merged = .ok result) ↔ GroupsBuildable groups := by
  induction merges generalizing md channels with
  | nil => exact ⟨fun _ => ⟨by simp, by simp⟩, fun _ => ⟨_, rfl⟩⟩
  | @cons sg other groups merged here rest ih =>
      obtain ⟨metadata, labels, stored, after⟩ := here.described
      have reads := spec here after md
      rw [eachGroup, after]
      simp only [deref, ok_bind]
      constructor
      · rintro ⟨result, ran⟩
        obtain ⟨name, named, ran⟩ := bind_eq_ok.mp ran
        obtain ⟨md', first, ran⟩ := bind_eq_ok.mp ran
        have all := ih.mp ⟨result, ran⟩
        refine ⟨List.forall_mem_cons.mpr ⟨?_, all.named⟩,
          List.forall_mem_cons.mpr ⟨reads.mp ⟨md', first⟩, all.binary⟩⟩
        have named : metadata.name = some name := eq_some_of_deref named
        rw [stored, Option.bind_some, named]
        rfl
      · rintro ⟨named, binary⟩
        rw [List.forall_mem_cons] at named binary
        obtain ⟨md', first⟩ := reads.mpr binary.1
        obtain ⟨result, later⟩ := (@ih md'
          (ObjectMetadata.addChannel { metadata with labels } channels)).mpr
          ⟨named.2, binary.2⟩
        have here := named.1
        rw [stored, Option.bind_some] at here
        obtain ⟨name, given⟩ := Option.isSome_iff_exists.mp here
        refine ⟨result, ?_⟩
        simp only [given, ok_bind] at first ⊢
        rw [first, ok_bind]
        exact later

theorem Merges.isBinary_eq {sg merged : SignalGroup} (merges : Merges sg merged)
    {metadata : ObjectMetadata} (stored : merged.metadata = some metadata) :
    metadata.isBinary = sg.isBinary := by
  obtain ⟨original, labels, found, after⟩ := merges.described
  cases stored.symm.trans after
  rw [Generate.isBinary_eq found]
  rfl

end Build

section Versions

variable {sg merged : SignalGroup} {metadata : ObjectMetadata}

theorem Fmi2.groupVariables_ok_iff (merges : Merges sg merged)
    (stored : merged.metadata = some metadata) (md : ModelDescription) :
    (∃ md', groupVariables md metadata merged.signals = .ok md') ↔
      (sg.isBinary = true → ∀ s ∈ sg.signals, BusDescribed s) := by
  rw [groupVariables, merges.isBinary_eq stored]
  cases kind : sg.isBinary with
  | false =>
      rw [if_neg Bool.false_ne_true]
      refine (exists_bind_ok_iff fun _ => ⟨_, rfl⟩).trans ?_
      refine (exists_bind_ok_iff fun _ => ⟨_, rfl⟩).trans ?_
      refine ⟨fun _ binary => absurd binary Bool.false_ne_true, fun _ => ?_⟩
      apply eachSignal_ok
      intro s member
      exact (scalarRound_exports (merges.scalar kind s member)).ok
  | true =>
      obtain ⟨annotated, vr, signals⟩ := merges.binary kind
      rw [if_pos rfl, signals]
      refine (exists_bind_ok_iff fun _ => ⟨_, rfl⟩).trans ?_
      refine (exists_bind_ok_iff fun _ => ⟨_, rfl⟩).trans ?_
      rw [busBuilder.eachSignal_ok_iff annotated]
      exact ⟨fun described _ => described, fun described => described rfl⟩

theorem Fmi3.groupVariables_ok_iff (merges : Merges sg merged)
    (stored : merged.metadata = some metadata) (md : ModelDescription) :
    (∃ md', groupVariables md metadata merged.signals = .ok md') ↔
      (sg.isBinary = true → ∀ s ∈ sg.signals, BusDescribed s) := by
  rw [groupVariables, merges.isBinary_eq stored]
  cases kind : sg.isBinary with
  | false =>
      rw [if_neg Bool.false_ne_true]
      refine (exists_bind_ok_iff fun _ => ⟨_, rfl⟩).trans ?_
      refine (exists_bind_ok_iff fun _ => ⟨_, rfl⟩).trans ?_
      refine ⟨fun _ binary => absurd binary Bool.false_ne_true, fun _ => ?_⟩
      apply eachSignal_ok
      intro s member
      exact (scalarRound_exports (merges.scalar kind s member)).ok
  | true =>
      obtain ⟨annotated, vr, signals⟩ := merges.binary kind
      rw [if_pos rfl, signals]
      refine (exists_bind_ok_iff fun _ => ⟨_, rfl⟩).trans ?_
      refine (exists_bind_ok_iff fun _ => ⟨_, rfl⟩).trans ?_
      rw [busBuilder.eachSignal_ok_iff annotated]
      exact ⟨fun described _ => described, fun described => described rfl⟩

end Versions

section Gateway

variable {c : Gateway} {groups : List SignalGroup}

theorem Gateway.buildFmi2XmlSignals_ok_iff (readable : ParamsReadable c)
    (merges : List.Forall₂ Merges groups c.signalGroupFile) (fmuXml : Fmi2.ModelDescription) :
    (∃ result, c.buildFmi2XmlSignals fmuXml = .ok result) ↔ GroupsBuildable groups := by
  obtain ⟨real, first⟩ := eachSignal_ok fun s member =>
    (Fmi2.scalarRound_exports (readable.real s member).toScalarReadable).ok
  obtain ⟨string, second⟩ := eachSignal_ok fun s member =>
    Fmi2.stringRound_ok (readable.string s member)
  simp only [Gateway.buildFmi2XmlSignals, Fmi2.scalarSignal, Fmi2.stringSignal, first, second,
    ok_bind, pure_bind, Fmi2.variablesFromSignalGroupObject]
  apply eachGroup_ok_iff _ merges
  intro sg merged here metadata stored
  exact Fmi2.groupVariables_ok_iff here stored

theorem Gateway.buildFmi3XmlSignals_ok_iff (readable : ParamsReadable c)
    (merges : List.Forall₂ Merges groups c.signalGroupFile) (fmuXml : Fmi3.ModelDescription) :
    (∃ result, c.buildFmi3XmlSignals fmuXml = .ok result) ↔ GroupsBuildable groups := by
  obtain ⟨real, first⟩ := eachSignal_ok fun s member =>
    (Fmi3.scalarRound_exports (readable.real s member).toScalarReadable).ok
  obtain ⟨string, second⟩ := eachSignal_ok fun s member =>
    Fmi3.stringRound_ok (readable.string s member)
  simp only [Gateway.buildFmi3XmlSignals, Fmi3.scalarSignal, Fmi3.stringSignal, first, second,
    ok_bind, pure_bind, Fmi3.variablesFromSignalGroupObject]
  apply eachGroup_ok_iff _ merges
  intro sg merged here metadata stored
  exact Fmi3.groupVariables_ok_iff here stored

end Gateway

/-- The annotations of the user are read, and the version is supported. -/
def Builds (args : Arguments) : Prop :=
  (∃ user, args.annotation = .ok user) ∧ (args.fmiVersion = "2" ∨ args.fmiVersion = "3")

/-- What a run reads of its files, as far as it gets. -/
structure PanicFree (args : Arguments) (groups : List SignalGroup) : Prop where
  stack : ∀ s, args.stack = some (.ok s) → StackReadable s
  merged : Collects args → GroupsPatchable [] groups
  built : Collects args → Builds args → GroupsBuildable groups

theorem Gateway.createFmuXml_noPanic_iff {c : Gateway} {args : Arguments}
    {groups : List SignalGroup} (readable : ParamsReadable c)
    (merges : List.Forall₂ Merges groups c.signalGroupFile) :
    Run.NoPanic (c.createFmuXml args) ↔ (Builds args → GroupsBuildable groups) := by
  have fmi2 : ∀ fmuXml, Run.NoPanic (Run.ofGo (c.buildFmi2XmlSignals fmuXml)) ↔
      GroupsBuildable groups := fun fmuXml =>
    Run.noPanic_ofGo_iff.trans (c.buildFmi2XmlSignals_ok_iff readable merges fmuXml)
  have fmi3 : ∀ fmuXml, Run.NoPanic (Run.ofGo (c.buildFmi3XmlSignals fmuXml)) ↔
      GroupsBuildable groups := fun fmuXml =>
    Run.noPanic_ofGo_iff.trans (c.buildFmi3XmlSignals_ok_iff readable merges fmuXml)
  rw [Gateway.createFmuXml]
  cases read : args.annotation with
  | error message =>
      refine ⟨fun _ builds => ?_, fun _ => Run.noPanic_error _⟩
      obtain ⟨user, same⟩ := builds.1
      rw [read] at same
      cases same
  | ok user =>
      rw [Run.ofResult, ok_bind]
      have builds : Builds args ↔ args.fmiVersion = "2" ∨ args.fmiVersion = "3" :=
        ⟨And.right, fun version => ⟨⟨user, read⟩, version⟩⟩
      rw [builds]
      dsimp only
      split
      next version =>
        rw [Run.noPanic_bind_iff, fmi2]
        exact ⟨fun kept _ => kept.1, fun kept =>
          ⟨kept (.inl version), fun _ _ => Run.noPanic_ok _⟩⟩
      next other =>
        split
        next version =>
          rw [Run.noPanic_bind_iff, fmi3]
          exact ⟨fun kept _ => kept.1, fun kept =>
            ⟨kept (.inr version), fun _ _ => Run.noPanic_ok _⟩⟩
        next neither =>
          refine ⟨fun _ version => ?_, fun _ => Run.noPanic_error _⟩
          rcases version with version | version
          · exact absurd version other
          · exact absurd version neither

section Merge

variable {c : Gateway} {name : String} {groups : List SignalGroup}

theorem known_nil : Known [] [] := by
  intro name
  simp

theorem Gateway.mergeSignalGroups_noPanic_iff :
    Run.NoPanic (c.mergeSignalGroups name (groups.map .ok)) ↔ GroupsPatchable [] groups := by
  rw [← @patchGroups_noPanic_iff name ⟨c.signalIdx, []⟩ _ _ known_nil]
  rw [Gateway.mergeSignalGroups, Run.noPanic_bind_iff]
  exact ⟨And.left, fun kept => ⟨kept, fun _ _ => Run.noPanic_ok _⟩⟩

theorem Gateway.mergeSignalGroups_merges (readable : ParamsReadable c)
    (patchable : GroupsPatchable [] groups) :
    ∃ d, c.mergeSignalGroups name (groups.map .ok) = .ok d ∧ ParamsReadable d ∧
      List.Forall₂ Merges groups d.signalGroupFile := by
  obtain ⟨after, merged, ran, merges⟩ :=
    @patchGroups_merges name ⟨c.signalIdx, []⟩ _ _ known_nil patchable
  rw [Gateway.mergeSignalGroups, ran]
  exact ⟨_, rfl, ⟨readable.real, readable.string⟩, merges⟩

theorem Gateway.mergeAndBuild_noPanic_iff {args : Arguments} (readable : ParamsReadable c) :
    Run.NoPanic (c.mergeSignalGroups name (groups.map .ok) >>= fun d => d.createFmuXml args) ↔
      GroupsPatchable [] groups ∧ (Builds args → GroupsBuildable groups) := by
  rw [Run.noPanic_bind_iff, mergeSignalGroups_noPanic_iff]
  constructor
  · rintro ⟨patchable, later⟩
    obtain ⟨d, ran, params, merges⟩ := @mergeSignalGroups_merges _ name _ readable patchable
    exact ⟨patchable, (createFmuXml_noPanic_iff params merges).mp (later d ran)⟩
  · rintro ⟨patchable, buildable⟩
    obtain ⟨d, ran, params, merges⟩ := @mergeSignalGroups_merges _ name _ readable patchable
    refine ⟨patchable, ?_⟩
    intro e again
    cases ran.symm.trans again
    exact (createFmuXml_noPanic_iff params merges).mpr buildable

end Merge

/-- A run on signal groups that are read never panics exactly when the stack, the merge and
the builder read each annotation they look at as its own type. -/
theorem generate_noPanic_iff (args : Arguments) (groups : List SignalGroup) :
    Run.NoPanic (generate { args with signalGroups := groups.map .ok }) ↔
      PanicFree args groups := by
  rw [generate, Run.noPanic_bind_iff, collectParameters_noPanic_iff]
  dsimp only
  have params : ∀ c, newFmiGatewayCommand.collectParameters args = .ok c → ParamsReadable c :=
    fun c ran => paramsReadable_collected.collectParameters (paramsReadable_new.createRuntime _) ran
  constructor
  · rintro ⟨stack, later⟩
    have merges : Collects args →
        GroupsPatchable [] groups ∧ (Builds args → GroupsBuildable groups) := by
      intro collects
      obtain ⟨c, ran⟩ := (collectParameters_ok_iff stack).mpr collects
      exact (Gateway.mergeAndBuild_noPanic_iff (params c ran)).mp (later c ran)
    exact ⟨stack, fun collects => (merges collects).1, fun collects => (merges collects).2⟩
  · rintro ⟨stack, merged, built⟩
    refine ⟨stack, fun c ran => ?_⟩
    have collects := (collectParameters_ok_iff stack).mp ⟨c, ran⟩
    exact (Gateway.mergeAndBuild_noPanic_iff (params c ran)).mpr
      ⟨merged collects, built collects⟩

/-- A run of a stack with one gateway, without parameters and signal groups. -/
def gatewayArguments (anns : Annotations) : Arguments where
  name := "gateway"
  runtime := "simer"
  fmiVersion := "2"
  stack := some (.ok ⟨some [⟨"Gateway", some anns⟩]⟩)
  parameters := none
  signalGroups := []
  annotation := .ok ∅
  mapOrder := ⟨id, perm_id⟩

/-- A time that is written as an integer ends the program. -/
theorem generate_integerStepSize :
    ¬ Run.NoPanic (generate { gatewayArguments ((∅ : Annotations).insert "step_size" (.int 1)) with
      signalGroups := [].map .ok }) := by
  intro kept
  exact kept .interfaceConversion rfl

end DseFmi.Generate
