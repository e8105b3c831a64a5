import DseFmi.Generate.Schema

/-!
# Model descriptions of FMI 3

The variables stand in one list for each of the types that are generated. The text of an
annotation is kept as the value it is formatted from.
-/

namespace DseFmi.Generate.Fmi3

structure Annotation where
  type : String
  value : Option Value

structure Float where
  name : String
  valueReference : String
  causality : String
  variability : String
  start : String
  annotations : Option (List Annotation)

structure Binary where
  name : String
  valueReference : String
  causality : String
  variability : String
  start : String
  annotations : Option (List Annotation)

structure ModelDescription where
  annotations : Option (List (String × String))
  float64 : List Float
  string : List Binary
  binary : List Binary
  outputs : List String
  initialUnknowns : List String

def outputModelStructure (fmiXml : ModelDescription) (vr : String) : ModelDescription :=
  { fmiXml with
    outputs := fmiXml.outputs ++ [vr]
    initialUnknowns := fmiXml.initialUnknowns ++ [vr] }

def addFloat64 (fmiXml : ModelDescription) (v : Float) : ModelDescription :=
  let fmiXml := { fmiXml with float64 := fmiXml.float64 ++ [v] }
  if v.causality = "output" then outputModelStructure fmiXml v.valueReference else fmiXml

def addString (fmiXml : ModelDescription) (v : Binary) : ModelDescription :=
  let fmiXml := { fmiXml with string := fmiXml.string ++ [v] }
  if v.causality = "output" then outputModelStructure fmiXml v.valueReference else fmiXml

def addBinary (fmiXml : ModelDescription) (v : Binary) : ModelDescription :=
  let fmiXml := { fmiXml with binary := fmiXml.binary ++ [v] }
  if v.causality = "output" then outputModelStructure fmiXml v.valueReference else fmiXml

def annotationsFromSignal (signal : Signal) : Go (Option (List Annotation)) := do
  match ← signal.annotation "fmi_annotations" with
  | some (.map []) => return none
  | some (.map entries) =>
      return some (entries.map fun
        | (name, .null) => ⟨name, none⟩
        | (name, value) => ⟨name, some value⟩)
  | _ => return none

def variability (causality : String) : String :=
  if causality = "parameter" then "tunable" else "discrete"

/-- The start value; one that is given must be an integer. -/
def scalarStart (causality : String) : Option Value → Go String
  | none => .ok (if causality = "input" ∨ causality = "parameter" then "0.0" else "")
  | some start => do
      let start ← Value.asInt (some start)
      return itoa start

/-- The round of `ScalarSignal`; a causality is required. -/
def scalarRound (signal : Signal) : Go (Round Float) := do
  let causality ← signal.stringAnnotation "fmi_variable_causality"
  let start ← scalarStart causality (← signal.annotation "fmi_variable_start_value")
  match ← signal.annotation "fmi_variable_vref" with
  | none => return .stop (missingVref signal)
  | some vref =>
      let vref ← Value.asInt (some vref)
      let annotations ← annotationsFromSignal signal
      return .add
        [{ name := signal.signal
           valueReference := itoa vref
           causality
           variability := variability causality
           start
           annotations }]

def scalarSignal (fmiXml : ModelDescription) (signals : List Signal) :
    Go (ModelDescription × Option String) := do
  let (added, error) ← eachSignal scalarRound signals
  return (added.foldl addFloat64 fmiXml, error)

def stringRound (signal : Signal) : Go (Round Binary) := do
  let causality ← signal.stringAnnotation "fmi_variable_causality"
  let start ← stringStart causality (← signal.annotation "fmi_variable_start_value")
  match ← signal.annotation "fmi_variable_vref" with
  | none => return .stop (missingVref signal)
  | some vref =>
      let vref ← Value.asInt (some vref)
      let annotations ← annotationsFromSignal signal
      return .add
        [{ name := signal.signal
           valueReference := itoa vref
           causality
           variability := variability causality
           start
           annotations }]

def stringSignal (fmiXml : ModelDescription) (signals : List Signal) :
    Go (ModelDescription × Option String) := do
  let (added, error) ← eachSignal stringRound signals
  return (added.foldl addString fmiXml, error)

def buildBinarySignal (signal : Signal) (vref : Int) (causality : String) (id : Nat) :
    Go Binary := do
  let busId ← signal.intAnnotation "dse.standards.fmi-ls-bus-topology.bus_id"
  let mimeType ← signal.stringAnnotation "mime_type"
  let encoding ← signal.stringAnnotation "dse.standards.fmi-ls-binary-to-text.encoding"
  let start ← binaryStart (← signal.annotation "fmi_variable_start_value")
  return {
    name := "network_" ++ itoa busId ++ "_" ++ itoa id ++ "_" ++ causality
    valueReference := itoa vref
    causality := if causality = "rx" then "input" else "output"
    variability := "discrete"
    start
    annotations := some
      [⟨"dse.standards.fmi-ls-binary-codec", some (.string mimeType)⟩,
        ⟨"dse.standards.fmi-ls-binary-to-text", some (.string encoding)⟩,
        ⟨"dse.standards.fmi-ls-bus-topology", some (.int busId)⟩] }

def binarySignal (fmiXml : ModelDescription) (signals : List Signal) :
    Go (ModelDescription × Option String) := do
  let (added, error) ← eachSignal (busRound buildBinarySignal) signals
  return (added.foldl addBinary fmiXml, error)

/-- The round of the loop for one group; an error ends the group only. -/
def groupVariables (fmiXml : ModelDescription) (metadata : ObjectMetadata)
    (signals : List Signal) : Go ModelDescription := do
  let (fmiXml, _) ←
    if metadata.isBinary then binarySignal fmiXml signals else scalarSignal fmiXml signals
  return fmiXml

def variablesFromSignalGroupObject (fmiXml : ModelDescription) (groups : List SignalGroup) :
    Go (ModelDescription × List String) :=
  eachGroup groupVariables (fmiXml, []) groups

/-- The annotations come in the order of the iteration over their map. -/
def setGeneralFmuXmlFields (annotations : List (String × String)) : ModelDescription where
  annotations := if annotations = [] then none else some annotations
  float64 := []
  string := []
  binary := []
  outputs := []
  initialUnknowns := []

end DseFmi.Generate.Fmi3
