import DseFmi.Generate.Schema

/-!
# Model descriptions of FMI 2

All variables stand in one list, in the order they are added. The text of a tool
annotation is kept as the value it is formatted from.
-/

namespace DseFmi.Generate.Fmi2

structure Tool where
  name : String
  value : Option Value

inductive VariableType where
  | real (start : String)
  | string (start : String)
  deriving DecidableEq, Repr

structure ScalarVariable where
  name : String
  valueReference : String
  causality : String
  variability : Option String
  type : VariableType
  annotations : Option (List Tool)

/-- The vendor annotations are those of the tool `dse.fmi.config`. -/
structure ModelDescription where
  vendorAnnotations : Option (List (String × String))
  scalarVariable : List ScalarVariable
  outputs : List String
  initialUnknowns : List String

def expandModelStructure (fmiXml : ModelDescription) (vref : String) : ModelDescription :=
  { fmiXml with
    outputs := fmiXml.outputs ++ [vref]
    initialUnknowns := fmiXml.initialUnknowns ++ [vref] }

/-- Append a variable; an output is listed in the model structure too. -/
def addVariable (fmiXml : ModelDescription) (v : ScalarVariable) : ModelDescription :=
  let fmiXml := { fmiXml with scalarVariable := fmiXml.scalarVariable ++ [v] }
  if v.causality = "output" then expandModelStructure fmiXml v.valueReference else fmiXml

def annotationsFromSignal (signal : Signal) : Go (Option (List Tool)) := do
  match ← signal.annotation "fmi_annotations" with
  | some (.map []) => return none
  | some (.map entries) =>
      return some (entries.map fun
        | (name, .null) => ⟨name, none⟩
        | (name, value) => ⟨name, some value⟩)
  | _ => return none

/-- The start value; a value of another type than a number is not used. -/
def scalarStart (causality : String) : Option Value → String
  | some (.int n) => itoa n
  | some (.float64 x) => sprintfF x
  | _ => if causality = "input" ∨ causality = "parameter" then "0.0" else ""

def scalarVref : Value → String
  | .string s => s
  | .int n => itoa n
  | _ => ""

def variability (causality : String) : Option String :=
  if causality = "parameter" then some "tunable" else none

def scalarRound (signal : Signal) : Go (Round ScalarVariable) := do
  match ← signal.annotation "fmi_variable_causality" with
  | none => return .add []
  | some causality =>
      let causality ← Value.asString (some causality)
      let start ← signal.annotation "fmi_variable_start_value"
      match ← signal.annotation "fmi_variable_vref" with
      | none => return .stop (missingVref signal)
      | some vref =>
          let annotations ← annotationsFromSignal signal
          return .add
            [{ name := signal.signal
               valueReference := scalarVref vref
               causality
               variability := variability causality
               type := .real (scalarStart causality start)
               annotations }]

def scalarSignal (fmiXml : ModelDescription) (signals : List Signal) :
    Go (ModelDescription × Option String) := do
  let (added, error) ← eachSignal scalarRound signals
  return (added.foldl addVariable fmiXml, error)

def stringRound (signal : Signal) : Go (Round ScalarVariable) := do
  match ← signal.annotation "fmi_variable_causality" with
  | none => return .add []
  | some causality =>
      let causality ← Value.asString (some causality)
      let start ← stringStart causality (← signal.annotation "fmi_variable_start_value")
      match ← signal.annotation "fmi_variable_vref" with
      | none => return .stop (missingVref signal)
      | some vref =>
          let vref ← Value.asInt (some vref)
          let annotations ← annotationsFromSignal signal
          return .add
            [{ name := signal.signal
               valueReference := itoa vref
               causality
               variability := variability causality
               type := .string start
               annotations }]

/-- A string output is not listed in the model structure. -/
def stringSignal (fmiXml : ModelDescription) (signals : List Signal) :
    Go (ModelDescription × Option String) := do
  let (added, error) ← eachSignal stringRound signals
  return ({ fmiXml with scalarVariable := fmiXml.scalarVariable ++ added }, error)

def buildBinarySignal (signal : Signal) (vref : Int) (causality : String) (id : Nat) :
    Go ScalarVariable := do
  let busId ← signal.intAnnotation "dse.standards.fmi-ls-bus-topology.bus_id"
  let mimeType ← signal.stringAnnotation "mime_type"
  let encoding ← signal.stringAnnotation "dse.standards.fmi-ls-binary-to-text.encoding"
  let start ← binaryStart (← signal.annotation "fmi_variable_start_value")
  return {
    name := "network_" ++ itoa busId ++ "_" ++ itoa id ++ "_" ++ causality
    valueReference := itoa vref
    causality := if causality = "rx" then "input" else "output"
    variability := some "discrete"
    type := .string start
    annotations := some
      [⟨"dse.standards.fmi-ls-binary-codec", some (.string mimeType)⟩,
        ⟨"dse.standards.fmi-ls-binary-to-text", some (.string encoding)⟩,
        ⟨"dse.standards.fmi-ls-bus-topology", some (.int busId)⟩] }

def binarySignal (fmiXml : ModelDescription) (signals : List Signal) :
    Go (ModelDescription × Option String) := do
  let (added, error) ← eachSignal (busRound buildBinarySignal) signals
  return (added.foldl addVariable fmiXml, error)

/-- The round of the loop for one group; an error ends the group only. -/
def groupVariables (fmiXml : ModelDescription) (metadata : ObjectMetadata)
    (signals : List Signal) : Go ModelDescription := do
  let (fmiXml, _) ←
    if metadata.isBinary then binarySignal fmiXml signals else scalarSignal fmiXml signals
  return fmiXml

def variablesFromSignalGroupObject (fmiXml : ModelDescription) (groups : List SignalGroup) :
    Go (ModelDescription × List String) :=
  eachGroup groupVariables (fmiXml, []) groups

/-- The annotations come in the order of the iteration over their map. -/
def setGeneralFmuXmlFields (annotations : List (String × String)) : ModelDescription where
  vendorAnnotations := if annotations = [] then none else some annotations
  scalarVariable := []
  outputs := []
  initialUnknowns := []

end DseFmi.Generate.Fmi2
