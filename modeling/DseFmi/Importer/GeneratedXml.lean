import DseFmi.Generate.Agreement
import DseFmi.Generate.FmuPackage
import DseFmi.Importer.ParseXml

/-!
# Generated model descriptions as documents

The generator writes the variables of both versions into documents of different shapes, from which
the importer reads lists of reals and binaries. The texts of a document are those of the
description, without the escapes of XML.
-/

namespace DseFmi.Importer

open DseFmi.Fmu (XmlTool parseToolAnno)
open DseFmi.Generate
open DseFmi.Library

section ModelDesc

/-- The directory and the extension of a library. The architecture is looked at for the two
known systems only, where a missing one is not survived. -/
def fmuBinaryDir (version : UInt32) (os : String) (arch : Option String) :
    Option (String × String) :=
  if os = "linux" then do
    let arch ← arch
    let dir :=
      if arch = "amd64" then if version = 2 then "linux64" else "x86_64-linux"
      else if arch = "x86" ∨ arch = "i386" then if version = 2 then "linux32" else "x86_32-linux"
      else "linux64"
    return (dir, "so")
  else if os = "windows" then do
    let arch ← arch
    let dir :=
      if arch = "x64" then if version = 2 then "win64" else "x86_64-windows"
      else if arch = "x86" then if version = 2 then "win32" else "x86_64-windows"
      else "linux64"
    return (dir, "dll")
  else some ("linux64", "so")

/-- The path in the FMU; a missing identifier is printed as the C library prints it. -/
def getFmuBinaryPath (platform : String) (version : UInt32) (modelIdentifier : Option String) :
    Option String := do
  let (os, arch) := cut platform '-'
  let (dir, extension) ← fmuBinaryDir version os arch
  return "binaries/" ++ dir ++ "/" ++ modelIdentifier.getD "(null)" ++ "." ++ extension

structure ParsedModel (D : Type) where
  version : String
  fmuLibPath : String
  storage : Storage D

/-- `none` stands for a description that is not returned. -/
def parseModelDesc {D : Type} (order : HashOrder) (zero : D) (atof : String → D)
    (config : CodecConfig) (platform : String) (xml : ModelXml) : Option (ParsedModel D) := do
  let version ← xml.fmiVersion
  let storage ← parseVariables order zero atof config (atoi version.toList) xml
  let fmuLibPath ← getFmuBinaryPath platform (atoi version.toList) xml.modelIdentifier
  return ⟨version, fmuLibPath, storage⟩

end ModelDesc

section Documents

def present (text : String) : Option String := if text = "" then none else some text

variable (sprintfV : Value → String)

/-- The text of an annotation; `sprintfV` formats the values of other types. -/
def annotationText : Value → String
  | .string s => s
  | .int n => itoa n
  | value => sprintfV value

/-- The name of an annotation of a bus in the version 2, by its tool. -/
def busAnnotation (tool : String) : String :=
  if tool = "dse.standards.fmi-ls-binary-codec" then "mimetype"
  else if tool = "dse.standards.fmi-ls-binary-to-text" then "encoding"
  else "bus_id"

/-- The element of an annotation of a bus in the version 3, by its type. -/
def busElement (type : String) : String :=
  if type = "dse.standards.fmi-ls-binary-codec" then "Mimetype"
  else if type = "dse.standards.fmi-ls-binary-to-text" then "Encoding"
  else "Bus_id"

def toolXml (annotationName : String → String) (tool : Fmi2.Tool) : XmlTool :=
  ⟨tool.name, tool.value.toList.map fun value =>
    (annotationName tool.name, present (annotationText sprintfV value))⟩

def annotationsXml (annotationName : String → String) : Option (List Fmi2.Tool) → List VariableChild
  | none => []
  | some tools => [.element "Annotations" none (tools.map (toolXml sprintfV annotationName))]

/-- A variable of the version 2. Only the variables of a bus are discrete. -/
def fmi2Node (v : Fmi2.ScalarVariable) : VariableNode where
  name := v.name
  valueReference := some v.valueReference
  causality := some v.causality
  children :=
    (match v.type with
      | .real start => .element "Real" (present start) []
      | .string start => .element "String" (some start) []) ::
      annotationsXml sprintfV
        (if v.variability = some "discrete" then busAnnotation else fun _ => "value") v.annotations

def fmi2Xml (modelIdentifier : String) (md : Fmi2.ModelDescription) : ModelXml where
  fmiVersion := some ("2" ++ ".0")
  modelIdentifier := some modelIdentifier
  fmi2Variables := md.scalarVariable.map (fmi2Node sprintfV)
  fmi3Variables := []

def float64Node (v : Fmi3.Float) : Fmi3Node where
  element := "Float64"
  valueReference := some v.valueReference
  causality := some v.causality
  start := present v.start
  children := v.annotations.toList.map fun items =>
    .annotations (items.map fun item => ⟨item.type, []⟩)

def stringNode (v : Fmi3.Binary) : Fmi3Node where
  element := "String"
  valueReference := some v.valueReference
  causality := some v.causality
  start := none
  children := (v.annotations.toList.map fun items =>
    .annotations (items.map fun item => ⟨item.type, []⟩)) ++ [.start (some v.start)]

def binaryNode (v : Fmi3.Binary) : Fmi3Node where
  element := "Binary"
  valueReference := some v.valueReference
  causality := some v.causality
  start := none
  children := (v.annotations.toList.map fun items =>
    .annotations (items.map fun item =>
      ⟨item.type, item.value.toList.map fun value =>
        (busElement item.type, annotationText sprintfV value)⟩)) ++ [.start (some v.start)]

/-- The variables of each type stand together. -/
def fmi3Xml (modelIdentifier : String) (md : Fmi3.ModelDescription) : ModelXml where
  fmiVersion := some ("3" ++ ".0")
  modelIdentifier := some modelIdentifier
  fmi2Variables := []
  fmi3Variables := md.float64.map float64Node ++ md.string.map stringNode ++
    md.binary.map (binaryNode sprintfV)

end Documents

inductive Declared where
  | real (vr causality : String) (start : Option String)
  | binary (vr causality start : String) (mimeType : Option String)
  deriving DecidableEq, Repr

def startOf (signal : Signal) (causality : String) : Option String :=
  match valueOf signal "fmi_variable_start_value" with
  | some (.int n) => some (itoa n)
  | _ => if causality = "input" ∨ causality = "parameter" then some "0.0" else none

def scalarDeclared (signal : Signal) : Option (List Declared) :=
  (valueOf signal "fmi_variable_vref").map fun vref =>
    let causality := textOf (valueOf signal "fmi_variable_causality")
    [.real (itoa (numberOf (some vref))) causality (startOf signal causality)]

/-- An input and an output for each pair of references. -/
def busPairs (start : String) (mimeType : Option String) : List (Int × Int) → List Declared
  | [] => []
  | (rx, tx) :: vrefs =>
      .binary (itoa rx) "input" start mimeType :: .binary (itoa tx) "output" start mimeType ::
        busPairs start mimeType vrefs

def busDeclared (signal : Signal) : Option (List Declared) :=
  match vrefsOf signal "dse.standards.fmi-ls-bus-topology.rx_vref",
    vrefsOf signal "dse.standards.fmi-ls-bus-topology.tx_vref" with
  | some rx, some tx =>
      if rx.length ≠ tx.length then none
      else
        some (busPairs (textOf (valueOf signal "fmi_variable_start_value"))
          (some (textOf (valueOf signal "mime_type"))) (rx.zip tx))
  | _, _ => none

def declaredOf (doc : SignalGroupDoc) : List Declared :=
  if doc.metadata.isBinary then declaredBy busDeclared doc.signals
  else declaredBy scalarDeclared doc.signals

section Maps

variable {D : Type} (atof : String → D) (zero : D) (config : CodecConfig)

def Declared.add (maps : VrMaps D) : Declared → VrMaps D
  | .real vr causality start => setReal vr causality ((start.map atof).getD zero) maps
  | .binary vr causality start mimeType =>
      setBinary vr causality (binaryData config (some start) mimeType) maps

/-- The maps of what the groups declare, where a later variable takes the place of an earlier one
under its reference. -/
def declaredMaps (docs : List SignalGroupDoc) : VrMaps D :=
  (docs.flatMap declaredOf).foldl (Declared.add atof zero config) .empty

end Maps

section Read

variable {D : Type} {atof : String → D} {zero : D} {config : CodecConfig}
  {sprintfV : Value → String}

def codecTool : String := "dse.standards.fmi-ls-binary-codec"

def fmi2Declared (sprintfV : Value → String) (v : Fmi2.ScalarVariable) : Declared :=
  match v.type with
  | .real start => .real v.valueReference v.causality (present start)
  | .string start =>
      .binary v.valueReference v.causality start
        (parseToolAnno ((fmi2Node sprintfV v).scalarVariable v.valueReference) codecTool "mimetype")

def floatDeclared (v : Fmi3.Float) : Declared :=
    .real v.valueReference v.causality (present v.start)

def binaryDeclared (sprintfV : Value → String) (v : Fmi3.Binary) : Declared :=
  .binary v.valueReference v.causality v.start
    (parseFmi3ToolAnno (binaryNode sprintfV v) codecTool "Mimetype")

theorem parseFmi2Child_annotations (node : VariableNode) (vr causality : String)
    (annotationName : String → String) (annotations : Option (List Fmi2.Tool)) (maps : VrMaps D) :
    (annotationsXml sprintfV annotationName annotations).foldl
      (parseFmi2Child atof zero config node vr causality) maps = maps := by
  cases annotations with
  | none => rfl
  | some tools => rfl

theorem parseFmi2Variable_fmi2Node (maps : VrMaps D) (v : Fmi2.ScalarVariable) :
    parseFmi2Variable atof zero config maps (fmi2Node sprintfV v) =
      Declared.add atof zero config maps (fmi2Declared sprintfV v) := by
  cases kind : v.type with
  | real start =>
      simp only [fmi2Declared, kind, Declared.add]
      simp only [parseFmi2Variable, fmi2Node, kind, List.foldl_cons, parseFmi2Child_annotations]
      rfl
  | string start =>
      simp only [fmi2Declared, kind, Declared.add]
      simp only [parseFmi2Variable, fmi2Node, kind, List.foldl_cons, parseFmi2Child_annotations]
      rfl

theorem parseFmi2ModelDesc_fmi2Xml (modelIdentifier : String) (md : Fmi2.ModelDescription) :
    parseFmi2ModelDesc atof zero config (fmi2Xml sprintfV modelIdentifier md).fmi2Variables =
      (md.scalarVariable.map (fmi2Declared sprintfV)).foldl (Declared.add atof zero config)
        .empty := by
  simp only [parseFmi2ModelDesc, fmi2Xml, List.foldl_map, parseFmi2Variable_fmi2Node]

theorem parseFmi3Node_float64Node (maps : VrMaps D) (v : Fmi3.Float) :
    parseFmi3Node atof zero config maps (float64Node v) =
      some (Declared.add atof zero config maps (floatDeclared v)) := rfl

theorem parseFmi3Node_stringNode (maps : VrMaps D) (v : Fmi3.Binary) :
    parseFmi3Node atof zero config maps (stringNode v) = some maps := rfl

theorem startValue_binaryNode (v : Fmi3.Binary) :
    (binaryNode sprintfV v).startValue = some v.start := by
  cases present : v.annotations with
  | none => simp [Fmi3Node.startValue, binaryNode, present]
  | some items => simp [Fmi3Node.startValue, binaryNode, present]

theorem parseFmi3Node_binaryNode (maps : VrMaps D) (v : Fmi3.Binary) :
    parseFmi3Node atof zero config maps (binaryNode sprintfV v) =
      some (Declared.add atof zero config maps (binaryDeclared sprintfV v)) := by
  have scalar : parseFmi3Scalar atof zero (binaryNode sprintfV v) v.valueReference v.causality
      maps = maps := rfl
  have binary : ¬ (binaryNode sprintfV v).element ≠ "Binary" := not_not.mpr rfl
  show parseFmi3Binary config (binaryNode sprintfV v) v.valueReference v.causality _ = _
  rw [scalar, parseFmi3Binary, if_neg binary, startValue_binaryNode]
  rfl

theorem foldlM_nodes {α : Type} {node : α → Fmi3Node} {add : VrMaps D → α → VrMaps D}
    (reads : ∀ maps v, parseFmi3Node atof zero config maps (node v) = some (add maps v))
    (vs : List α) (maps : VrMaps D) :
    (vs.map node).foldlM (parseFmi3Node atof zero config) maps = some (vs.foldl add maps) := by
  induction vs generalizing maps with
  | nil => rfl
  | cons v vs ih =>
      rw [List.map_cons, List.foldlM_cons, reads]
      exact ih (add maps v)

theorem parseFmi3ModelDesc_fmi3Xml (modelIdentifier : String) (md : Fmi3.ModelDescription) :
    parseFmi3ModelDesc atof zero config (fmi3Xml sprintfV modelIdentifier md).fmi3Variables =
      some ((md.binary.map (binaryDeclared sprintfV)).foldl (Declared.add atof zero config)
        ((md.float64.map floatDeclared).foldl (Declared.add atof zero config) .empty)) := by
  have strings : ∀ maps : VrMaps D, md.string.foldl (fun maps _ => maps) maps = maps := by
    intro maps
    induction md.string with
    | nil => rfl
    | cons _ _ ih => exact ih
  rw [parseFmi3ModelDesc, fmi3Xml, List.foldlM_append, List.foldlM_append,
    foldlM_nodes parseFmi3Node_float64Node]
  simp only [Option.bind_eq_bind, Option.bind_some, foldlM_nodes parseFmi3Node_stringNode, strings,
    foldlM_nodes parseFmi3Node_binaryNode, List.foldl_map]

theorem setReal_setBinary (vr wr causality direction : String) (start : D) (data : ParsedBinary)
    (maps : VrMaps D) : setReal vr causality start (setBinary wr direction data maps) =
      setBinary wr direction data (setReal vr causality start maps) := by
  unfold setReal setBinary
  split_ifs <;> rfl

theorem foldl_reals_add (ds : List Fmi3.Float) (v : Fmi3.Binary) (maps : VrMaps D) :
    (ds.map floatDeclared).foldl (Declared.add atof zero config)
        (Declared.add atof zero config maps (binaryDeclared sprintfV v)) =
      Declared.add atof zero config
        ((ds.map floatDeclared).foldl (Declared.add atof zero config) maps)
        (binaryDeclared sprintfV v) := by
  rw [List.foldl_map, List.foldl_map]
  apply List.foldl_hom (Declared.add atof zero config · (binaryDeclared sprintfV v))
  intro maps d
  exact setReal_setBinary _ _ _ _ _ _ _

theorem foldl_binaries_reals (vs : List Fmi3.Binary) (ds : List Fmi3.Float) (maps : VrMaps D) :
    (vs.map (binaryDeclared sprintfV)).foldl (Declared.add atof zero config)
        ((ds.map floatDeclared).foldl (Declared.add atof zero config) maps) =
      (ds.map floatDeclared).foldl (Declared.add atof zero config)
        ((vs.map (binaryDeclared sprintfV)).foldl (Declared.add atof zero config) maps) := by
  rw [List.foldl_map (l := vs), List.foldl_map (l := vs)]
  apply List.foldl_hom ((ds.map floatDeclared).foldl (Declared.add atof zero config))
  intro maps v
  exact (foldl_reals_add ds v maps).symm

end Read

end DseFmi.Importer
