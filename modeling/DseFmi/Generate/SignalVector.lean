import DseFmi.Library.KeyedList
import DseFmi.Generate.Schema

/-!
# Signal groups of a model description

The variables of a description become signals of two groups: strings are exchanged through the
network, everything else is scalar. Parameters are left out.
-/

namespace DseFmi.Generate

namespace Description

structure Annotation where
  name : String
  text : String
  deriving DecidableEq, Repr

structure Tool where
  name : String
  annotation : List Annotation
  deriving DecidableEq, Repr

structure ScalarVariable where
  name : String
  valueReference : String
  causality : String
  real : Bool
  string : Bool
  boolean : Bool
  integer : Bool
  annotations : Option (List Tool)
  deriving DecidableEq, Repr

end Description

structure Description where
  scalarVariable : List Description.ScalarVariable
  deriving DecidableEq, Repr

namespace Description

def ScalarVariable.variableType (s : ScalarVariable) : String :=
  if s.real then "Real"
  else if s.integer then "Integer"
  else if s.string then "String"
  else if s.boolean then "Boolean"
  else ""

/-- The annotations of all tools under their names, which are made of both names. -/
def qualified (tools : List Tool) : List (String × String) :=
  tools.flatMap fun tool => tool.annotation.map fun anno =>
    (tool.name ++ "." ++ anno.name, anno.text)

def toolAnnotations (tools : List Tool) : Annotations :=
  (qualified tools).foldl (fun annotations anno => annotations.insert anno.1 (.string anno.2)) ∅

def ScalarVariable.causalityOrLocal (s : ScalarVariable) : String :=
  if s.causality = "" then "local" else s.causality

def ScalarVariable.variableAnnotations (s : ScalarVariable) : Annotations :=
  ((((∅ : Annotations).insert "fmi_variable_causality" (.string s.causalityOrLocal)).insert
    "fmi_variable_vref" (.string s.valueReference)).insert
    "fmi_variable_type" (.string s.variableType)).insert
    "fmi_variable_name" (.string s.name)

def ScalarVariable.signalAnnotations (s : ScalarVariable) : Annotations :=
  let annotations :=
    if s.causalityOrLocal = "local" then s.variableAnnotations.insert "internal" .other
    else s.variableAnnotations
  match s.annotations with
  | none => annotations
  | some tools =>
      annotations.insert "fmi_annotations"
        (.map ((toolAnnotations tools).entries.map fun entry => (entry.1, entry.2)))

def ScalarVariable.signal (s : ScalarVariable) : Signal := ⟨s.name, some s.signalAnnotations⟩

def signals : List ScalarVariable → List Signal × List Signal
  | [] => ([], [])
  | s :: vars =>
      let (scalarSignals, binarySignals) := signals vars
      if s.causality = "parameter" then (scalarSignals, binarySignals)
      else if s.variableType = "String" then (scalarSignals, s.signal :: binarySignals)
      else (s.signal :: scalarSignals, binarySignals)

end Description

def vectorLabels (modelName channel : String) : AList fun _ : String => String :=
  ((∅ : AList fun _ : String => String).insert "channel" channel).insert "model" modelName

@[simp] theorem vectorLabels_channel (modelName channel : String) :
    (vectorLabels modelName channel).lookup "channel" = some channel :=
  (AList.lookup_insert_ne (by decide)).trans (AList.lookup_insert _)

@[simp] theorem vectorLabels_model (modelName channel : String) :
    (vectorLabels modelName channel).lookup "model" = some modelName :=
  AList.lookup_insert _

def signalVector (modelName : String) (signals : List Signal) : SignalGroup where
  metadata := some ⟨some modelName, none, some (vectorLabels modelName "signal_vector")⟩
  signals := signals

def networkVector (modelName : String) (signals : List Signal) : SignalGroup where
  metadata := some
    ⟨some modelName, some ((∅ : Annotations).insert "vector_type" (.string "binary")),
      some (vectorLabels modelName "network_vector")⟩
  signals := signals

/-- The groups that are written, one after the other. -/
def generateSignalVector (modelName : String) (fmiMD : Description) : List SignalGroup :=
  let (scalarSignals, binarySignals) := Description.signals fmiMD.scalarVariable
  if binarySignals.length > 0 then
    [signalVector modelName scalarSignals, networkVector modelName binarySignals]
  else [signalVector modelName scalarSignals]

def selectChannel (modelName name channel : String) : Channel where
  name := none
  aliasName := some name
  selectors := some (vectorLabels modelName channel)

def generateChannels (modelName : String) (fmiMD : Description) : List Channel :=
  let channels := [selectChannel modelName "signal_channel" "signal_vector"]
  let binarySignalCount := fmiMD.scalarVariable.countP fun s => s.string
  if binarySignalCount > 0 then
    channels ++ [selectChannel modelName "network_channel" "network_vector"]
  else channels

namespace Description

variable {vars : List ScalarVariable} {s : ScalarVariable}

def ScalarVariable.IsBinary (s : ScalarVariable) : Prop :=
  s.causality ≠ "parameter" ∧ s.string = true ∧ s.real = false ∧ s.integer = false

theorem variableType_string : s.variableType = "String" ↔
    s.string = true ∧ s.real = false ∧ s.integer = false := by
  unfold ScalarVariable.variableType
  cases s.real <;> cases s.integer <;> cases s.string <;> cases s.boolean <;> decide

theorem signals_eq (vars : List ScalarVariable) :
    signals vars =
      (((vars.filter fun s => s.causality ≠ "parameter").filter fun s =>
          s.variableType ≠ "String").map ScalarVariable.signal,
        ((vars.filter fun s => s.causality ≠ "parameter").filter fun s =>
          s.variableType = "String").map ScalarVariable.signal) := by
  induction vars with
  | nil => rfl
  | cons s vars ih =>
      rw [signals, ih]
      by_cases parameter : s.causality = "parameter"
      · simp [parameter]
      · by_cases string : s.variableType = "String" <;> simp [parameter, string]

/-- There are binary signals when some variable becomes one. -/
theorem binarySignals_pos : (signals vars).2.length > 0 ↔ ∃ s ∈ vars, s.IsBinary := by
  rw [signals_eq, gt_iff_lt, List.length_pos_iff_exists_mem]
  simp only [List.mem_map, List.mem_filter, decide_eq_true_eq, variableType_string]
  constructor
  · rintro ⟨_, s, ⟨⟨member, other⟩, string⟩, rfl⟩
    exact ⟨s, member, other, string⟩
  · rintro ⟨s, member, other, string⟩
    exact ⟨_, s, ⟨⟨member, other⟩, string⟩, rfl⟩

end Description

section Channels

/-- The model has a channel that selects the groups of the network. -/
def DeclaresNetwork (modelName : String) (channels : List Channel) : Prop :=
  ∃ channel ∈ channels, channel.selectors = some (vectorLabels modelName "network_vector")

def EmitsNetwork (modelName : String) (groups : List SignalGroup) : Prop :=
  ∃ group ∈ groups, ∃ metadata, group.metadata = some metadata ∧
    metadata.labels = some (vectorLabels modelName "network_vector")

variable {modelName : String} {fmiMD : Description}

theorem vectorLabels_ne : vectorLabels modelName "signal_vector" ≠
    vectorLabels modelName "network_vector" := by
  intro same
  have channels := congrArg (fun labels => labels.lookup "channel") same
  simp only [vectorLabels_channel, Option.some.injEq] at channels
  exact absurd channels (by decide)

theorem declaresNetwork_iff : DeclaresNetwork modelName (generateChannels modelName fmiMD) ↔
    ∃ s ∈ fmiMD.scalarVariable, s.string = true := by
  rw [← List.countP_pos_iff (p := fun s : Description.ScalarVariable => s.string)]
  unfold generateChannels DeclaresNetwork
  dsimp only
  split
  next counted => simp [counted, selectChannel]
  next none => simpa [selectChannel, vectorLabels_ne] using none

theorem emitsNetwork_iff : EmitsNetwork modelName (generateSignalVector modelName fmiMD) ↔
    ∃ s ∈ fmiMD.scalarVariable, s.IsBinary := by
  rw [← Description.binarySignals_pos]
  unfold generateSignalVector EmitsNetwork
  dsimp only
  split
  next binary => simp [binary, signalVector, networkVector]
  next none => simpa [signalVector, vectorLabels_ne] using none

/-- The channel and the group go together exactly when there is no variable with a string
element, or one that becomes a binary signal. -/
theorem networkChannel_iff (modelName : String) (fmiMD : Description) :
    (DeclaresNetwork modelName (generateChannels modelName fmiMD) ↔
        EmitsNetwork modelName (generateSignalVector modelName fmiMD)) ↔
      ((∃ s ∈ fmiMD.scalarVariable, s.string = true) →
        ∃ s ∈ fmiMD.scalarVariable, s.causality ≠ "parameter" ∧ s.string = true ∧
          s.real = false ∧ s.integer = false) := by
  rw [declaresNetwork_iff, emitsNetwork_iff]
  constructor
  · exact Iff.mp
  · intro binary
    refine ⟨binary, ?_⟩
    rintro ⟨s, member, _, string, _⟩
    exact ⟨s, member, string⟩

/-- A text that is set before the simulation starts. -/
def textParameter : Description where
  scalarVariable := [⟨"path", "1", "parameter", false, true, false, false, none⟩]

theorem networkChannel_textParameter :
    DeclaresNetwork "fmu" (generateChannels "fmu" textParameter) ∧
      ¬ EmitsNetwork "fmu" (generateSignalVector "fmu" textParameter) := by
  rw [declaresNetwork_iff, emitsNetwork_iff]
  refine ⟨by decide, ?_⟩
  rintro ⟨s, member, other, _⟩
  rw [List.mem_singleton.mp member] at other
  exact other rfl

end Channels

end DseFmi.Generate
