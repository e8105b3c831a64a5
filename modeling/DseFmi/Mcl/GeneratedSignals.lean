import Mathlib
import DseFmi.Generate.SignalEntries
import DseFmi.Generate.SignalVector
import DseFmi.Mcl.Parser

/-!
# Generated signal groups as the parser reads them

The parser finds the groups by their labels and reads the annotations of each signal. Every
variable of a description that is no parameter is read back as one signal.
-/

namespace DseFmi.Mcl

open DseFmi.Generate
open DseFmi.Generate.Description (ScalarVariable)

structure YamlReader where
  text : String → Option String
  uint : String → Option UInt32
  text_of_nonempty : ∀ s, s ≠ "" → text s = some s
  uint_of_decimal : ∀ n : UInt32, uint (Nat.repr n.toNat) = some n

variable (yaml : YamlReader)

def YamlReader.getString : Option Value → Option String
  | some (.string s) => yaml.text s
  | _ => none

def YamlReader.getUint : Option Value → Option UInt32
  | some (.string s) => yaml.uint s
  | _ => none

def findFmiAnnotation (s : Signal) (name : String) : Option Value :=
  match valueOf s "fmi_annotations" with
  | some (.map entries) => List.lookup name entries
  | _ => none

def encodingName : String := "dse.standards.fmi-ls-binary-to-text.encoding"

def YamlReader.signalNode (s : Signal) : SignalNode where
  signal := yaml.text s.signal
  annotations :=
    { fmiVariableVref := yaml.getUint (valueOf s "fmi_variable_vref")
      fmiVariableName := yaml.getString (valueOf s "fmi_variable_name")
      fmiVariableType := yaml.getString (valueOf s "fmi_variable_type")
      fmiVariableCausality := yaml.getString (valueOf s "fmi_variable_causality")
      binaryToTextEncoding := yaml.getString <| findFmiAnnotation s encodingName }

/-- A group that a selector with these labels selects. -/
def HasLabels (labels : List (String × String)) (group : SignalGroup) : Prop :=
  ∀ label ∈ labels,
    ((group.metadata.bind ObjectMetadata.labels).bind fun ls => ls.lookup label.1) = some label.2

instance (labels : List (String × String)) (group : SignalGroup) :
    Decidable (HasLabels labels group) :=
  List.decidableBAll _ labels

/-- `schema_object_search`, which comes with the runtime: it hands a selected group to the
handler, when there is one, and the handler ends the search. -/
structure SchemaSearch where
  search : List (String × String) → List SignalGroup → Option SignalGroup
  selected : ∀ labels groups group, search labels groups = some group →
    group ∈ groups ∧ HasLabels labels group
  complete : ∀ labels groups, (∃ group ∈ groups, HasLabels labels group) →
    (search labels groups).isSome

/-- What is read of a model, together with its signal groups. -/
def YamlReader.fmuYaml (schema : SchemaSearch) (modelName : String) (groups : List SignalGroup)
    (model : FmuYaml) : FmuYaml :=
  let search (channel : String) :=
    (schema.search [("model", modelName), ("channel", channel)] groups).map fun group =>
      group.signals.map yaml.signalNode
  { model with signalVector := search "signal_vector", networkVector := search "network_vector" }

inductive VariableType where
  | real
  | integer
  | boolean
  | string
  deriving DecidableEq, Repr

structure HasType (v : ScalarVariable) (type : VariableType) : Prop where
  real : v.real = decide (type = .real)
  integer : v.integer = decide (type = .integer)
  boolean : v.boolean = decide (type = .boolean)
  string : v.string = decide (type = .string)

def VariableType.kind : VariableType → MarshalKind
  | .real | .integer | .boolean => .primitive
  | .string => .binary

def VariableType.marshalType : VariableType → MarshalType
  | .real => .double
  | .integer => .int32
  | .boolean => .bool
  | .string => .string

/-- An annotation that names the encoding, below its tool. -/
def NamesEncoding (tool : Description.Tool) (anno : Description.Annotation) : Prop :=
  tool.name ++ "." ++ anno.name = encodingName

/-- The encoding of a variable, by its annotations: there is none where no annotation names it,
and it is the text of the last one that does. -/
structure IsEncodingOf (yaml : YamlReader) (v : ScalarVariable) (encoding : Option String) :
    Prop where
  absent : (∀ tools, v.annotations = some tools → ∀ tool ∈ tools, ∀ anno ∈ tool.annotation,
    ¬ NamesEncoding tool anno) → encoding = none
  last : ∀ earlier tool later front anno back,
    v.annotations = some (earlier ++ tool :: later) → tool.annotation = front ++ anno :: back →
      NamesEncoding tool anno → (∀ other ∈ back, ¬ NamesEncoding tool other) →
        (∀ tool ∈ later, ∀ other ∈ tool.annotation, ¬ NamesEncoding tool other) →
          encoding = yaml.text anno.text

structure IsSignalOf (yaml : YamlReader) (v : ScalarVariable) (s : FmuSignal) : Prop where
  name : s.name = v.name
  variableName : s.variableName = some v.name
  vref : v.valueReference = Nat.repr s.variableVref.toNat
  type : ∀ type, HasType v type → s.variableKind = type.kind ∧ s.variableType = type.marshalType
  input : v.causality = "input" → s.variableDir = .txonly
  output : v.causality = "output" → s.variableDir = .rxonly
  inout : v.causality = "inout" → s.variableDir = .txrx
  localDir : v.causality = "local" ∨ v.causality = "" → s.variableDir = .local
  other : v.causality ∉ ["input", "output", "inout", "local", ""] → s.variableDir = .none
  encoding : IsEncodingOf yaml v s.variableAnnotationEncoding

section Annotations

variable (v : ScalarVariable)

theorem lookup_entries {β : Type} (entries : List (Sigma fun _ : String => β)) (k : String) :
    List.lookup k (entries.map fun entry => (entry.1, entry.2)) = List.dlookup k entries := by
  induction entries with
  | nil => rfl
  | cons entry entries ih =>
      obtain ⟨k', value⟩ := entry
      by_cases here : k = k'
      · subst here
        simp
      · have different : (k == k') = false := by simpa using here
        rw [List.map_cons, List.lookup_cons, List.dlookup_cons_ne _ _ here, ih]
        simp only [different]

theorem get_signalAnnotations {k : String} (plain : k ≠ "fmi_annotations")
    (other : k ≠ "internal") : v.signalAnnotations.get k = v.variableAnnotations.get k := by
  have internal : (if v.causalityOrLocal = "local" then
      v.variableAnnotations.insert "internal" .other else v.variableAnnotations : Annotations).get
        k = v.variableAnnotations.get k := by
    split
    · exact get_insert_ne _ _ other
    · rfl
  unfold ScalarVariable.signalAnnotations
  dsimp only
  split
  · exact internal
  · rw [get_insert_ne _ _ plain, internal]

theorem get_variableAnnotations_name :
    v.variableAnnotations.get "fmi_variable_name" = some (.string v.name) :=
  get_insert_self _ _ (by simp)

theorem get_variableAnnotations_type :
    v.variableAnnotations.get "fmi_variable_type" = some (.string v.variableType) :=
  (get_insert_ne _ _ (by decide)).trans (get_insert_self _ _ (by simp))

theorem get_variableAnnotations_vref :
    v.variableAnnotations.get "fmi_variable_vref" = some (.string v.valueReference) :=
  (get_insert_ne _ _ (by decide)).trans
    ((get_insert_ne _ _ (by decide)).trans (get_insert_self _ _ (by simp)))

theorem get_variableAnnotations_causality :
    v.variableAnnotations.get "fmi_variable_causality" = some (.string v.causalityOrLocal) :=
  (get_insert_ne _ _ (by decide)).trans
    ((get_insert_ne _ _ (by decide)).trans
      ((get_insert_ne _ _ (by decide)).trans (get_insert_self _ _ (by simp))))

theorem get_variableAnnotations_tools :
    v.variableAnnotations.get "fmi_annotations" = none :=
  (get_insert_ne _ _ (by decide)).trans
    ((get_insert_ne _ _ (by decide)).trans
      ((get_insert_ne _ _ (by decide)).trans (get_insert_ne _ _ (by decide))))

theorem lookup_toolAnnotations (tools : List Description.Tool) (k : String) :
    (Description.toolAnnotations tools).lookup k =
      ((((Description.qualified tools).filter fun anno => anno.1 = k).getLast?).map
        Prod.snd).map Value.string := by
  rw [Description.toolAnnotations, Library.lookup_foldl_insert_last]
  simp [Function.comp_def]

theorem get_signalAnnotations_tools : v.signalAnnotations.get "fmi_annotations" =
    v.annotations.map fun tools =>
      .map ((Description.toolAnnotations tools).entries.map fun entry => (entry.1, entry.2)) := by
  unfold ScalarVariable.signalAnnotations
  dsimp only
  cases v.annotations with
  | none =>
      dsimp only
      split
      · rw [get_insert_ne _ _ (by decide), get_variableAnnotations_tools]
        rfl
      · exact get_variableAnnotations_tools v
  | some tools => exact get_insert_self _ _ (by simp)

/-- The text that is written under the name of the encoding. -/
def writtenEncoding : Option String :=
  (((Description.qualified (v.annotations.getD [])).filter fun anno =>
    anno.1 = encodingName).getLast?).map Prod.snd

theorem findFmiAnnotation_encoding : findFmiAnnotation v.signal encodingName =
    (writtenEncoding v).map Value.string := by
  have tools : valueOf v.signal "fmi_annotations" =
      v.annotations.map fun tools =>
        .map ((Description.toolAnnotations tools).entries.map fun entry => (entry.1, entry.2)) :=
    get_signalAnnotations_tools v
  unfold findFmiAnnotation
  rw [tools, writtenEncoding]
  cases v.annotations with
  | none => rfl
  | some tools =>
      show List.lookup encodingName _ = _
      rw [lookup_entries]
      exact lookup_toolAnnotations tools encodingName

theorem filter_qualified_of_unnamed {tools : List Description.Tool}
    (unnamed : ∀ tool ∈ tools, ∀ anno ∈ tool.annotation, ¬ NamesEncoding tool anno) :
    ((Description.qualified tools).filter fun anno => anno.1 = encodingName) = [] := by
  apply List.filter_eq_nil_iff.mpr
  intro written member
  obtain ⟨tool, here, annotated⟩ := List.mem_flatMap.mp member
  obtain ⟨anno, below, rfl⟩ := List.mem_map.mp annotated
  simpa [NamesEncoding] using unnamed tool here anno below

theorem isEncodingOf_written (yaml : YamlReader) :
    IsEncodingOf yaml v ((writtenEncoding v).bind yaml.text) := by
  refine ⟨?_, ?_⟩
  · intro unnamed
    have nothing : ((Description.qualified (v.annotations.getD [])).filter fun anno =>
        anno.1 = encodingName) = [] := by
      apply filter_qualified_of_unnamed
      intro tool member
      cases annotated : v.annotations with
      | none => simp [annotated] at member
      | some tools =>
          rw [annotated] at member
          exact unnamed tools annotated tool member
    rw [writtenEncoding, nothing]
    rfl
  · intro earlier tool later front anno back annotated annotation named unnamedBack unnamedLater
    have rest : ((Description.qualified later).filter fun anno => anno.1 = encodingName) = [] :=
      filter_qualified_of_unnamed unnamedLater
    have behind : ((back.map fun anno => (tool.name ++ "." ++ anno.name, anno.text)).filter
        fun anno => anno.1 = encodingName) = [] := by
      apply List.filter_eq_nil_iff.mpr
      intro written member
      obtain ⟨other, below, rfl⟩ := List.mem_map.mp member
      simpa [NamesEncoding] using unnamedBack other below
    have whole : Description.qualified (earlier ++ tool :: later) =
        Description.qualified earlier ++ ((tool.annotation.map fun anno =>
          (tool.name ++ "." ++ anno.name, anno.text)) ++ Description.qualified later) := by
      simp [Description.qualified]
    have here : decide (tool.name ++ "." ++ anno.name = encodingName) = true :=
      decide_eq_true named
    rw [writtenEncoding, annotated, Option.getD_some, whole, annotation]
    simp [rest, behind, here]

end Annotations

theorem fmuSignalGenerator_signal {v : ScalarVariable} (named : v.name ≠ "") :
    fmuSignalGenerator (yaml.signalNode v.signal) =
      some
        { name := v.name
          variableVref := (yaml.uint v.valueReference).getD 0
          variableName := some v.name
          variableKind := decodeVarKind (yaml.text v.variableType)
          variableDir := decodeVarDir (yaml.text v.causalityOrLocal)
          variableType := decodeVarType (yaml.text v.variableType)
          variableAnnotationEncoding := (writtenEncoding v).bind yaml.text } := by
  have plain (k : String) (plain : k ≠ "fmi_annotations") (other : k ≠ "internal") :
      valueOf v.signal k = v.variableAnnotations.get k :=
    get_signalAnnotations v plain other
  unfold fmuSignalGenerator YamlReader.signalNode
  rw [findFmiAnnotation_encoding, plain _ (by decide) (by decide), plain _ (by decide) (by decide),
    plain _ (by decide) (by decide), plain _ (by decide) (by decide),
    get_variableAnnotations_name, get_variableAnnotations_type, get_variableAnnotations_vref,
    get_variableAnnotations_causality]
  have text := yaml.text_of_nonempty v.name named
  have encoding : yaml.getString ((writtenEncoding v).map Value.string) =
      (writtenEncoding v).bind yaml.text := by
    cases writtenEncoding v <;> rfl
  rw [encoding]
  simp only [YamlReader.getString, YamlReader.getUint, ScalarVariable.signal, text,
    Option.map_some]

theorem variableMatchHandler_signals {vars : List ScalarVariable}
    (named : ∀ v ∈ vars, v.name ≠ "") :
    List.Forall₂ (fun v s => fmuSignalGenerator (yaml.signalNode v.signal) = some s) vars
      (variableMatchHandler ((vars.map ScalarVariable.signal).map yaml.signalNode)) := by
  induction vars with
  | nil => exact .nil
  | cons v vars ih =>
      have first := fmuSignalGenerator_signal yaml (named v List.mem_cons_self)
      rw [List.map_cons, List.map_cons, variableMatchHandler, first]
      refine .cons first (ih ?_)
      intro w member
      exact named w (List.mem_cons_of_mem _ member)

def VariableType.element : VariableType → String
  | .real => "Real"
  | .integer => "Integer"
  | .boolean => "Boolean"
  | .string => "String"

theorem HasType.variableType {v : ScalarVariable} {type : VariableType} (has : HasType v type) :
    v.variableType = type.element := by
  unfold ScalarVariable.variableType
  rw [has.real, has.integer, has.string, has.boolean]
  cases type <;> rfl

theorem decode_element (type : VariableType) :
    decodeVarKind (some type.element) = type.kind ∧
      decodeVarType (some type.element) = type.marshalType := by
  cases type <;> decide

theorem causalityOrLocal_ne (v : ScalarVariable) : v.causalityOrLocal ≠ "" := by
  unfold ScalarVariable.causalityOrLocal
  split
  · decide
  · assumption

theorem decodeVarDir_causality {v : ScalarVariable} {causality : String} {dir : MarshalDir}
    (given : v.causality = causality)
    (decoded : decodeVarDir (some (if causality = "" then "local" else causality)) = dir) :
    decodeVarDir (some v.causalityOrLocal) = dir := by
  rw [ScalarVariable.causalityOrLocal, given]
  exact decoded

theorem decodeVarDir_other {causality : String}
    (other : causality ∉ ["input", "output", "inout", "local", ""])
    (used : causality ≠ "parameter") : decodeVarDir (some causality) = .none := by
  simp only [List.mem_cons, List.not_mem_nil, or_false, not_or] at other
  obtain ⟨input, output, inout, isLocal, _⟩ := other
  simp [decodeVarDir, input, output, inout, isLocal, used]

/-- The signal of a variable, where the variable has a name and a reference. -/
theorem isSignalOf {v : ScalarVariable} {s : FmuSignal} {n : UInt32} (named : v.name ≠ "")
    (vref : v.valueReference = Nat.repr n.toNat) (used : v.causality ≠ "parameter")
    (read : fmuSignalGenerator (yaml.signalNode v.signal) = some s) : IsSignalOf yaml v s := by
  rw [fmuSignalGenerator_signal yaml named, vref, yaml.uint_of_decimal,
    yaml.text_of_nonempty _ (causalityOrLocal_ne v)] at read
  obtain rfl := Option.some.inj read
  refine ⟨rfl, rfl, vref, ?_, ?_, ?_, ?_, ?_, ?_, isEncodingOf_written v yaml⟩
  · intro type has
    have text : yaml.text v.variableType = some type.element := by
      rw [has.variableType]
      apply yaml.text_of_nonempty
      cases type <;> decide
    rw [text]
    exact decode_element type
  · intro input
    exact decodeVarDir_causality input (by decide)
  · intro output
    exact decodeVarDir_causality output (by decide)
  · intro inout
    exact decodeVarDir_causality inout (by decide)
  · rintro (isLocal | absent)
    · exact decodeVarDir_causality isLocal (by decide)
    · exact decodeVarDir_causality absent (by decide)
  · intro other
    have given : v.causality ≠ "" := by
      rintro absent
      rw [absent] at other
      exact other (by decide)
    rw [ScalarVariable.causalityOrLocal, if_neg given]
    exact decodeVarDir_other other used

/-- A description with named variables, whose references are numbers. -/
structure WellFormed (fmiMD : Description) : Prop where
  named : ∀ v ∈ fmiMD.scalarVariable, v.name ≠ ""
  vref : ∀ v ∈ fmiMD.scalarVariable, ∃ n : UInt32, v.valueReference = Nat.repr n.toNat
  typed : ∀ v ∈ fmiMD.scalarVariable, ∃ type, HasType v type

theorem hasLabels_signalVector (modelName : String) (signals : List Signal) :
    HasLabels [("model", modelName), ("channel", "signal_vector")]
      (signalVector modelName signals) := by
  simp [HasLabels, signalVector]

theorem hasLabels_networkVector (modelName : String) (signals : List Signal) :
    HasLabels [("model", modelName), ("channel", "network_vector")]
      (networkVector modelName signals) := by
  simp [HasLabels, networkVector]

section Search

variable (schema : SchemaSearch) (modelName : String) (fmiMD : Description)

theorem search_signalVector :
    schema.search [("model", modelName), ("channel", "signal_vector")]
        (generateSignalVector modelName fmiMD) =
      some (signalVector modelName (Description.signals fmiMD.scalarVariable).1) := by
  have written : signalVector modelName (Description.signals fmiMD.scalarVariable).1 ∈
      generateSignalVector modelName fmiMD := by
    unfold generateSignalVector
    dsimp only
    split <;> simp
  obtain ⟨group, found⟩ := Option.isSome_iff_exists.mp
    (schema.complete _ _ ⟨_, written, hasLabels_signalVector modelName _⟩)
  obtain ⟨member, labels⟩ := schema.selected _ _ _ found
  rw [found, Option.some.injEq]
  unfold generateSignalVector at member
  dsimp only at member
  split at member
  · simp only [List.mem_cons, List.not_mem_nil, or_false] at member
    rcases member with rfl | rfl
    · rfl
    · simp [HasLabels, networkVector] at labels
  · exact List.mem_singleton.mp member

theorem search_networkVector :
    ((schema.search [("model", modelName), ("channel", "network_vector")]
        (generateSignalVector modelName fmiMD)).map SignalGroup.signals).getD [] =
      (Description.signals fmiMD.scalarVariable).2 := by
  have only_network : ∀ group, schema.search [("model", modelName), ("channel", "network_vector")]
      (generateSignalVector modelName fmiMD) = some group →
        (Description.signals fmiMD.scalarVariable).2.length > 0 ∧
          group = networkVector modelName (Description.signals fmiMD.scalarVariable).2 := by
    intro group found
    obtain ⟨member, labels⟩ := schema.selected _ _ _ found
    unfold generateSignalVector at member
    dsimp only at member
    split at member
    next binary =>
      simp only [List.mem_cons, List.not_mem_nil, or_false] at member
      rcases member with rfl | rfl
      · simp [HasLabels, signalVector] at labels
      · exact ⟨binary, rfl⟩
    · rw [List.mem_singleton.mp member] at labels
      simp [HasLabels, signalVector] at labels
  by_cases binary : (Description.signals fmiMD.scalarVariable).2.length > 0
  · have written : networkVector modelName (Description.signals fmiMD.scalarVariable).2 ∈
        generateSignalVector modelName fmiMD := by
      simp [generateSignalVector, binary]
    obtain ⟨group, found⟩ := Option.isSome_iff_exists.mp
      (schema.complete _ _ ⟨_, written, hasLabels_networkVector modelName _⟩)
    rw [found, (only_network group found).2]
    rfl
  · have nothing : schema.search [("model", modelName), ("channel", "network_vector")]
        (generateSignalVector modelName fmiMD) = none := by
      apply Option.eq_none_iff_forall_ne_some.mpr
      intro group found
      exact binary (only_network group found).1
    rw [nothing, List.eq_nil_of_length_eq_zero (Nat.eq_zero_of_not_pos binary)]
    rfl

end Search

theorem parsedSignals_generated (schema : SchemaSearch) (modelName : String)
    (fmiMD : Description) (model : FmuYaml) :
    parsedSignals (yaml.fmuYaml schema modelName (generateSignalVector modelName fmiMD) model) =
      variableMatchHandler ((Description.signals fmiMD.scalarVariable).1.map yaml.signalNode) ++
        variableMatchHandler ((Description.signals fmiMD.scalarVariable).2.map
          yaml.signalNode) := by
  have network := search_networkVector schema modelName fmiMD
  unfold parsedSignals YamlReader.fmuYaml
  dsimp only
  rw [search_signalVector]
  cases found : schema.search [("model", modelName), ("channel", "network_vector")]
      (generateSignalVector modelName fmiMD) with
  | none =>
      rw [found] at network
      rw [← network]
      rfl
  | some group =>
      rw [found] at network
      rw [← network]
      rfl

theorem variableMatchHandler_isSignalOf {vars : List ScalarVariable}
    (named : ∀ v ∈ vars, v.name ≠ "")
    (vref : ∀ v ∈ vars, ∃ n : UInt32, v.valueReference = Nat.repr n.toNat)
    (used : ∀ v ∈ vars, v.causality ≠ "parameter") :
    List.Forall₂ (IsSignalOf yaml) vars
      (variableMatchHandler ((vars.map ScalarVariable.signal).map yaml.signalNode)) := by
  have handled := variableMatchHandler_signals yaml named
  refine List.forall₂_iff_get.mpr ⟨handled.length_eq, ?_⟩
  intro i first second
  have member := List.get_mem vars ⟨i, first⟩
  obtain ⟨n, reference⟩ := vref _ member
  exact isSignalOf yaml (named _ member) reference (used _ member) (handled.get first second)

/-- The parser reads one signal for each variable that is no parameter, and no others. -/
theorem fmimclParse_generated (yaml : YamlReader) (schema : SchemaSearch)
    (header : MarshalHeader) (model : FmuYaml) (m : FmuModel) (modelName : String)
    {fmiMD : Description} (wellFormed : WellFormed fmiMD) :
    ∃ signals,
      List.Forall₂ (IsSignalOf yaml)
        (fmiMD.scalarVariable.filter fun v => v.causality ≠ "parameter") signals ∧
      signals.Perm (fmimclParse header (yaml.fmuYaml schema modelName
        (generateSignalVector modelName fmiMD) model) m).signals := by
  have reads (string : ScalarVariable → Bool) :
      List.Forall₂ (IsSignalOf yaml)
        ((fmiMD.scalarVariable.filter fun v => v.causality ≠ "parameter").filter string)
        (variableMatchHandler
          ((((fmiMD.scalarVariable.filter fun v => v.causality ≠ "parameter").filter string).map
            ScalarVariable.signal).map yaml.signalNode)) := by
    have members : ∀ v ∈ (fmiMD.scalarVariable.filter fun v =>
        v.causality ≠ "parameter").filter string,
        v ∈ fmiMD.scalarVariable ∧ v.causality ≠ "parameter" := by
      intro v member
      simpa using (List.mem_filter.mp member).1
    apply variableMatchHandler_isSignalOf
    · exact fun v member => wellFormed.named v (members v member).1
    · exact fun v member => wellFormed.vref v (members v member).1
    · exact fun v member => (members v member).2
  have both := List.rel_append (reads fun v => v.variableType ≠ "String")
    (reads fun v => v.variableType = "String")
  have parts := List.filter_append_perm (fun v : ScalarVariable => v.variableType ≠ "String")
    (fmiMD.scalarVariable.filter fun v => v.causality ≠ "parameter")
  simp only [ne_eq, decide_not, Bool.not_not] at both parts
  obtain ⟨signals, related, perm⟩ := List.perm_comp_forall₂ parts.symm both
  refine ⟨signals, by simpa using related, perm.trans ?_⟩
  refine (List.Perm.symm ?_)
  refine (sortByMarshalGroup_perm header _).trans ?_
  rw [parsedSignals_generated, Description.signals_eq]
  simp

/-- Texts are read as they are written, decimals as numbers. -/
def plainYaml : YamlReader where
  text := some
  uint s := s.toNat?.map UInt32.ofNat
  text_of_nonempty _ _ := rfl
  uint_of_decimal n := by simp [Nat.toNat?_repr]

/-- An output, a parameter, and a text that is encoded. -/
def threeVariables : Description where
  scalarVariable :=
    [⟨"speed", "1", "output", true, false, false, false, none⟩,
      ⟨"path", "2", "parameter", false, true, false, false, none⟩,
      ⟨"network", "3", "input", false, true, false, false,
        some [⟨"dse.standards.fmi-ls-binary-to-text", [⟨"encoding", "ascii85"⟩]⟩]⟩]

theorem wellFormed_threeVariables : WellFormed threeVariables where
  named := by decide
  vref := by
    intro v member
    simp only [threeVariables, List.mem_cons, List.not_mem_nil, or_false] at member
    rcases member with rfl | rfl | rfl
    · exact ⟨1, by decide⟩
    · exact ⟨2, by decide⟩
    · exact ⟨3, by decide⟩
  typed := by
    intro v member
    simp only [threeVariables, List.mem_cons, List.not_mem_nil, or_false] at member
    rcases member with rfl | rfl | rfl
    · exact ⟨.real, by constructor <;> decide⟩
    · exact ⟨.string, by constructor <;> decide⟩
    · exact ⟨.string, by constructor <;> decide⟩

theorem find_selected (labels : List (String × String)) (groups : List SignalGroup)
    (group : SignalGroup) (found : (groups.find? fun g => HasLabels labels g) = some group) :
    group ∈ groups ∧ HasLabels labels group := by
  refine ⟨List.mem_of_find?_eq_some found, ?_⟩
  have selected := List.find?_some found
  exact of_decide_eq_true selected

theorem find_complete (labels : List (String × String)) (groups : List SignalGroup)
    (present : ∃ group ∈ groups, HasLabels labels group) :
    (groups.find? fun g => HasLabels labels g).isSome := by
  obtain ⟨group, member, selected⟩ := present
  exact List.find?_isSome.mpr ⟨group, member, decide_eq_true selected⟩

def firstSelected : SchemaSearch where
  search labels groups := groups.find? fun group => HasLabels labels group
  selected := find_selected
  complete := find_complete

/-- The text is read with its encoding. -/
theorem fmimclParse_generated_threeVariables :
    ∃ signals,
      List.Forall₂ (IsSignalOf plainYaml)
        (threeVariables.scalarVariable.filter fun v => v.causality ≠ "parameter") signals ∧
      signals.Perm (fmimclParse marshalHeader
        (plainYaml.fmuYaml firstSelected "fmu" (generateSignalVector "fmu" threeVariables)
          ⟨some "fmu", some "fmi", some "2.0", true, none, none, none, none, none, none, none⟩)
        FmuModel.null).signals ∧
      ∃ scalar network, signals = [scalar, network] ∧
        scalar.variableAnnotationEncoding = none ∧
        network.variableAnnotationEncoding = some "ascii85" := by
  obtain ⟨signals, related, parsed⟩ := fmimclParse_generated plainYaml firstSelected marshalHeader
    ⟨some "fmu", some "fmi", some "2.0", true, none, none, none, none, none, none, none⟩
    FmuModel.null "fmu" wellFormed_threeVariables
  refine ⟨signals, related, parsed, ?_⟩
  have both : (threeVariables.scalarVariable.filter fun v => v.causality ≠ "parameter") =
      [⟨"speed", "1", "output", true, false, false, false, none⟩,
        ⟨"network", "3", "input", false, true, false, false,
          some [⟨"dse.standards.fmi-ls-binary-to-text", [⟨"encoding", "ascii85"⟩]⟩]⟩] := by decide
  rw [both] at related
  obtain ⟨scalar, _, first, rest, rfl⟩ := List.forall₂_cons_left_iff.mp related
  obtain ⟨network, _, second, last, rfl⟩ := List.forall₂_cons_left_iff.mp rest
  obtain rfl := List.forall₂_nil_left_iff.mp last
  refine ⟨scalar, network, rfl, first.encoding.absent (by simp), ?_⟩
  have named : NamesEncoding
      ⟨"dse.standards.fmi-ls-binary-to-text", [⟨"encoding", "ascii85"⟩]⟩
        ⟨"encoding", "ascii85"⟩ := by
    unfold NamesEncoding
    decide
  exact second.encoding.last [] _ [] [] _ [] rfl rfl named (by simp) (by simp)

end DseFmi.Mcl
