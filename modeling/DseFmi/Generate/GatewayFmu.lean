import DseFmi.Generate.Fmi2
import DseFmi.Generate.Fmi3

/-!
# The generator of gateway FMUs

A run collects the parameters of the runtime, of the stack and of a file, then the signals
of the signal groups, and puts all of them into one model description. A counter hands out
the value references.
-/

namespace DseFmi.Generate

/-- The errors of a run; those of reading a file come with their text. -/
inductive GatewayError where
  | file (message : String)
  | malformedRecord (record : List String)
  | unknownType (paramType name : String)
  | unsupportedFmiVersion (version : String)
  deriving DecidableEq, Repr

inductive Failure where
  | panic (p : Panic)
  | error (e : GatewayError)
  deriving DecidableEq, Repr

/-- A command that may end with a panic or return an error. -/
abbrev Run := Except Failure

def Run.ofGo {α : Type} : Go α → Run α
  | .ok x => .ok x
  | .error p => .error (.panic p)

def Run.ofResult {α : Type} : Except String α → Run α
  | .ok x => .ok x
  | .error message => .error (.error (.file message))

structure ModelInstance where
  name : String
  annotations : Option Annotations

structure Stack where
  models : Option (List ModelInstance)

/-- The order of an iteration over a map; it may be any. -/
structure MapOrder where
  order : List (String × String) → List (String × String)
  perm : ∀ entries, (order entries).Perm entries

theorem perm_id (entries : List (String × String)) : (id entries).Perm entries := .refl entries

structure Arguments where
  name : String
  runtime : String
  fmiVersion : String
  stack : Option (Except String Stack)
  parameters : Option (Except String (List (List String)))
  signalGroups : List (Except String SignalGroup)
  annotation : Except String (AList fun _ : String => String)
  mapOrder : MapOrder

structure Gateway where
  startTime : Float64
  endTime : Float64
  stepSize : Float64
  signalIdx : Nat
  signalGroupFile : List SignalGroup
  stringParams : List Signal
  realParams : List Signal
  annotations : AList fun _ : String => String

def newFmiGatewayCommand : Gateway where
  startTime := 0
  endTime := 0x412E847E00000000
  stepSize := 0x3F40624DD2F1A9FC
  signalIdx := 0
  signalGroupFile := []
  stringParams := []
  realParams := []
  annotations := ∅

/-- A parameter; the key of its annotation tells what it is for. -/
def parameter (name : String) (vref : Nat) (start : Option String) (key : String) :
    Signal :=
  let annotations : Annotations :=
    ((∅ : Annotations).insert "fmi_annotations" (.map [(key, .null)]))
      |>.insert "fmi_variable_vref" (.int vref)
      |>.insert "fmi_variable_causality" (.string "parameter")
  { signal := name
    annotations := some (match start with
      | none => annotations
      | some start => annotations.insert "fmi_variable_start" (.string start)) }

inductive ParameterType where
  | real
  | string
  deriving DecidableEq, Repr

/-- Append a parameter under the next reference. -/
def Gateway.addParameter (c : Gateway) (type : ParameterType) (name : String)
    (start : Option String) (key : String) : Gateway :=
  let signal := parameter name c.signalIdx start key
  match type with
  | .real => { c with realParams := c.realParams ++ [signal], signalIdx := c.signalIdx + 1 }
  | .string => { c with stringParams := c.stringParams ++ [signal], signalIdx := c.signalIdx + 1 }

def simerParameter : String := "dse.fmi.gateway.simer.parameter"

def scriptParameter : String := "dse.fmi.gateway.script.parameter"

def Gateway.createRuntime (c : Gateway) (runtime : String) : Gateway :=
  let empty : AList fun _ : String => String := ∅
  let c := { c with annotations := empty.insert "dse.fmi.gateway.runtime" runtime }
  if runtime = "simer" then
    let c := c.addParameter .real "Simer_Command_Selector" none simerParameter
    let c := c.addParameter .string "Simer_Command" none simerParameter
    let cmd := "-logger 6 -endtime 9999999"
    { c with annotations := c.annotations.insert "dse.fmi.gateway.simer.cmd.0" cmd }
  else c

def envarType (anns : Annotations) : Option ParameterType :=
  match anns.get "type" with
  | none => some .real
  | some (.string s) =>
      if s = "real" then some .real else if s = "string" then some .string else none
  | some _ => none

/-- The variables of the list that have the type. -/
def getEnvar (expectedType : ParameterType) (c : Gateway) : List Value → Gateway
  | [] => c
  | .map entries :: envarList =>
      let anns : Annotations := entries.foldl (fun anns entry => anns.insert entry.1 entry.2) ∅
      match decide (envarType anns = some expectedType), anns.get "name" with
      | true, some (.string name) =>
          if name = "" then getEnvar expectedType c envarList
          else
            let start := match anns.get "default" with
              | some (.string start) => start
              | _ => ""
            getEnvar expectedType (c.addParameter expectedType name (some start) scriptParameter)
              envarList
      | _, _ => getEnvar expectedType c envarList
  | _ :: envarList => getEnvar expectedType c envarList

def floatAnnotation (anns : Annotations) (k : String) (value : Float64) : Go Float64 :=
  match anns.get k with
  | none => .ok value
  | some x => Value.asFloat64 (some x)

def Gateway.parseGateway (c : Gateway) (anns : Annotations) : Go Gateway := do
  let stepSize ← floatAnnotation anns "step_size" c.stepSize
  let endTime ← floatAnnotation anns "end_time" c.endTime
  let startTime ← floatAnnotation anns "fmi_start_time" c.startTime
  let c := { c with stepSize, endTime, startTime }
  match anns.get "cmd_envvars" with
  | none => return c
  | some (.list envarList) => return getEnvar .string (getEnvar .real c envarList) envarList
  | some _ => .error .interfaceConversion

def Gateway.parseModels (c : Gateway) : List ModelInstance → Go Gateway
  | [] => .ok c
  | model :: models =>
      if model.name = "Gateway" then do
        let anns ← deref model.annotations
        let c ← c.parseGateway anns
        c.parseModels models
      else c.parseModels models

/-- A stack file that does not exist is skipped. -/
def Gateway.parseStack (c : Gateway) (stack : Option (Except String Stack)) : Run Gateway :=
  match stack with
  | none => .ok c
  | some stack => do
      let stack ← Run.ofResult stack
      let models ← Run.ofGo (deref stack.models)
      Run.ofGo (c.parseModels models)

def isSpace (c : Char) : Bool :=
  let n := c.toNat
  (9 ≤ n && n ≤ 13) || n = 0x20 || n = 0x85 || n = 0xA0 || n = 0x1680 ||
    (0x2000 ≤ n && n ≤ 0x200A) || n = 0x2028 || n = 0x2029 || n = 0x202F || n = 0x205F ||
    n = 0x3000

def trimSpace (s : String) : String :=
  String.ofList ((s.toList.dropWhile isSpace).reverse.dropWhile isSpace).reverse

/-- `strings.ToLower`, as far as the result has letters of ASCII: the dotted capital I and
the Kelvin sign are the only letters outside ASCII that become one. -/
def toLower (s : String) : String :=
  String.ofList (s.toList.map fun c =>
    if c.toNat = 0x130 then 'i' else if c.toNat = 0x212A then 'k' else c.toLower)

def Gateway.parseRecord (c : Gateway) (record : List String) : Run Gateway :=
  match record with
  | name :: type :: rest =>
      let paramType := toLower (trimSpace type)
      let start := trimSpace (rest.headD "")
      if paramType = "type" then .ok c
      else if paramType = "real" then
        .ok (c.addParameter .real (trimSpace name) (some start) scriptParameter)
      else if paramType = "string" then
        .ok (c.addParameter .string (trimSpace name) (some start) scriptParameter)
      else .error (.error (.unknownType paramType name))
  | record => .error (.error (.malformedRecord record))

def Gateway.parseParametersCsv (c : Gateway)
    (parameters : Option (Except String (List (List String)))) : Run Gateway :=
  match parameters with
  | none => .ok c
  | some records => do
      let records ← Run.ofResult records
      records.foldlM Gateway.parseRecord c

/-- The causality of a signal; the last annotation that is given decides. -/
def effectiveCausality (anns : Annotations) : Go String := do
  let softecu := match anns.get "softecu_direction" with
    | some (.string "M2E") => "input"
    | some (.string "E2M") => "output"
    | _ => ""
  let direction ← match anns.get "direction" with
    | none => pure softecu
    | some causality => Value.asString (some causality)
  match anns.get "fmi_variable_causality" with
  | none => return direction
  | some causality => Value.asString (some causality)

def exportedScalar (vr : Nat) (causality sgType name : String) : Annotations :=
  ((∅ : Annotations).insert "fmi_variable_name" (.string name))
    |>.insert "fmi_variable_type" (.string sgType)
    |>.insert "fmi_variable_vref" (.int vr)
    |>.insert "fmi_variable_causality" (.string causality)

/-- The annotations of an exported binary signal; those it has stay. -/
def exportedBinary (vr : Nat) (anns : Annotations) : Annotations :=
  anns.insert "fmi_variable_vref" (.int vr)
    |>.insert "fmi_variable_vref_input" (.int vr)
    |>.insert "fmi_variable_vref_output" (.int (vr + 1))
    |>.insert "dse.standards.fmi-ls-binary-to-text.vref" (.ints [vr, vr + 1])
    |>.insert "dse.standards.fmi-ls-bus-topology.rx_vref" (.ints [vr])
    |>.insert "dse.standards.fmi-ls-bus-topology.tx_vref" (.ints [vr + 1])

/-- The counter, and the names of the scalar signals that were met. -/
structure PatchState where
  vr : Nat
  usedSignals : List String
  deriving DecidableEq, Repr

def patchScalars (sgType : String) (state : PatchState) :
    List Signal → Go (PatchState × List Signal)
  | [] => .ok (state, [])
  | s :: signals =>
      if s.signal ∈ state.usedSignals then patchScalars sgType state signals
      else do
        let state := { state with usedSignals := state.usedSignals ++ [s.signal] }
        let anns ← deref s.annotations
        let causality ← effectiveCausality anns
        if causality = "local" then patchScalars sgType state signals
        else do
          let patched : Signal :=
            { s with annotations := some (exportedScalar state.vr causality sgType s.signal) }
          let (state, rest) ← patchScalars sgType { state with vr := state.vr + 1 } signals
          return (state, patched :: rest)

def patchBinary (vr : Nat) : List Signal → Go (List Signal)
  | [] => .ok []
  | s :: signals => do
      let anns ← deref s.annotations
      let rest ← patchBinary vr signals
      return { s with annotations := some (exportedBinary vr anns) } :: rest

def patchSignal (state : PatchState) (sgType : String) (signals : List Signal) :
    Go (PatchState × List Signal) :=
  if sgType = "string" then do
    let signals ← patchBinary state.vr signals
    return (state, signals)
  else patchScalars sgType state signals

def patchGroup (name : String) (state : PatchState) (sg : SignalGroup) :
    Go (PatchState × SignalGroup) := do
  let metadata ← deref sg.metadata
  let sgType := if metadata.isBinary then "string" else "real"
  let labels := (metadata.labels.getD ∅).insert "model" name
  let (state, signals) ← patchSignal state sgType sg.signals
  return (state, { metadata := some { metadata with labels := some labels }, signals })

def patchGroups (name : String) (state : PatchState) :
    List (Except String SignalGroup) → Run (PatchState × List SignalGroup)
  | [] => .ok (state, [])
  | sg :: groups => do
      let sg ← Run.ofResult sg
      let (state, sg) ← Run.ofGo (patchGroup name state sg)
      let (state, rest) ← patchGroups name state groups
      return (state, sg :: rest)

def Gateway.mergeSignalGroups (c : Gateway) (name : String)
    (groups : List (Except String SignalGroup)) : Run Gateway := do
  let (state, signalGroupFile) ← patchGroups name ⟨c.signalIdx, []⟩ groups
  return { c with signalIdx := state.vr, signalGroupFile }

inductive FmuXml where
  | fmi2 (md : Fmi2.ModelDescription)
  | fmi3 (md : Fmi3.ModelDescription)

def FmuXml.valueReferences : FmuXml → List String
  | .fmi2 md => md.scalarVariable.map Fmi2.ScalarVariable.valueReference
  | .fmi3 md =>
      md.float64.map Fmi3.Float.valueReference ++ md.string.map Fmi3.Binary.valueReference ++
        md.binary.map Fmi3.Binary.valueReference

def Gateway.buildFmi2XmlSignals (c : Gateway) (fmuXml : Fmi2.ModelDescription) :
    Go (Fmi2.ModelDescription × List String) := do
  let (fmuXml, _) ← Fmi2.scalarSignal fmuXml c.realParams
  let (fmuXml, _) ← Fmi2.stringSignal fmuXml c.stringParams
  Fmi2.variablesFromSignalGroupObject fmuXml c.signalGroupFile

def Gateway.buildFmi3XmlSignals (c : Gateway) (fmuXml : Fmi3.ModelDescription) :
    Go (Fmi3.ModelDescription × List String) := do
  let (fmuXml, _) ← Fmi3.scalarSignal fmuXml c.realParams
  let (fmuXml, _) ← Fmi3.stringSignal fmuXml c.stringParams
  Fmi3.variablesFromSignalGroupObject fmuXml c.signalGroupFile

/-- The annotations of the user replace those of the runtime. -/
def mergeAnnotations (annotations user : AList fun _ : String => String) :
    AList fun _ : String => String :=
  user.entries.foldl (fun annotations entry => annotations.insert entry.1 entry.2) annotations

def mapEntries (annotations : AList fun _ : String => String) : List (String × String) :=
  annotations.entries.map fun entry => (entry.1, entry.2)

def Gateway.createFmuXml (c : Gateway) (args : Arguments) : Run (FmuXml × List String) := do
  let user ← Run.ofResult args.annotation
  let annotations := args.mapOrder.order (mapEntries (mergeAnnotations c.annotations user))
  if args.fmiVersion = "2" then
    let (md, channels) ← Run.ofGo (c.buildFmi2XmlSignals (Fmi2.setGeneralFmuXmlFields annotations))
    return (.fmi2 md, channels)
  else if args.fmiVersion = "3" then
    let (md, channels) ← Run.ofGo (c.buildFmi3XmlSignals (Fmi3.setGeneralFmuXmlFields annotations))
    return (.fmi3 md, channels)
  else .error (.error (.unsupportedFmiVersion args.fmiVersion))

def Gateway.collectParameters (c : Gateway) (args : Arguments) : Run Gateway := do
  let c := c.createRuntime args.runtime
  let c ← c.parseStack args.stack
  c.parseParametersCsv args.parameters

/-- The model description of a run, with the channels of the model. -/
def generate (args : Arguments) : Run (FmuXml × List String) := do
  let c ← newFmiGatewayCommand.collectParameters args
  let c ← c.mergeSignalGroups args.name args.signalGroups
  c.createFmuXml args

end DseFmi.Generate
