import DseFmi.Generate.SignalEntries

/-!
# The variables of an index of signal groups

Both versions of the standard go through the signal groups that a filter selects. The
first one leaves the groups with the label `index` out, the second one adds the time.
-/

namespace DseFmi.Generate

structure SignalGroupDoc where
  name : String
  annotations : Annotations
  labels : AList fun _ : String => String
  signals : List Signal

def SignalGroupDoc.metadata (doc : SignalGroupDoc) : ObjectMetadata where
  name := some doc.name
  annotations := some doc.annotations
  labels := some doc.labels

def filterNames (signalGroups : String) : List String :=
  if signalGroups = "" then [] else (signalGroups.toList.splitOn ',').map String.ofList

/-- Whether the filter lets a group through. -/
def SignalGroupDoc.selected (filter : List String) (doc : SignalGroupDoc) : Bool :=
  filter = [] ∨ doc.name ∈ filter

def SignalGroupDoc.hasIndex (doc : SignalGroupDoc) : Bool := (doc.labels.lookup "index").isSome

def SignalGroupDoc.channel (doc : SignalGroupDoc) : String := (doc.labels.lookup "channel").getD ""

/-- The loop over the groups of an index; those that are not added are passed over. -/
def eachDoc {M : Type} (adds : SignalGroupDoc → Bool)
    (round : M → ObjectMetadata → List Signal → Go M) :
    M × List String → List SignalGroupDoc → Go (M × List String)
  | result, [] => .ok result
  | (fmiXml, channels), doc :: docs =>
      if adds doc then do
        let fmiXml ← round fmiXml doc.metadata doc.signals
        eachDoc adds round (fmiXml, doc.metadata.addChannel channels) docs
      else eachDoc adds round (fmiXml, channels) docs

def Fmi2.variablesFromSignalgroups (fmiXml : ModelDescription) (signalGroups : String)
    (docs : List SignalGroupDoc) : Go (ModelDescription × List String) :=
  let filter := filterNames signalGroups
  eachDoc (fun doc => doc.selected filter && !doc.hasIndex) groupVariables (fmiXml, []) docs

def Fmi3.time : Float where
  name := "time"
  valueReference := itoa 4294967295
  causality := "independent"
  variability := "continuous"
  start := ""
  annotations := none

def Fmi3.variablesFromSignalgroups (fmiXml : ModelDescription) (signalGroups : String)
    (docs : List SignalGroupDoc) : Go (ModelDescription × List String) :=
  let fmiXml := { fmiXml with float64 := fmiXml.float64 ++ [time] }
  let filter := filterNames signalGroups
  eachDoc (fun doc => doc.selected filter) groupVariables (fmiXml, []) docs

structure ExportedVariable where
  name : String
  valueReference : String
  causality : String
  deriving DecidableEq, Repr

def isString : Option Value → Bool
  | some (.string _) => true
  | _ => false

def isInt : Option Value → Bool
  | some (.int _) => true
  | _ => false

/-- A scalar that both versions read: with a causality, and with integers or nothing for the
start value and the reference. -/
structure ScalarReadable (signal : Signal) : Prop where
  causality : isString (valueOf signal "fmi_variable_causality") = true
  start : valueOf signal "fmi_variable_start_value" = none ∨
    isInt (valueOf signal "fmi_variable_start_value") = true
  vref : valueOf signal "fmi_variable_vref" = none ∨
    isInt (valueOf signal "fmi_variable_vref") = true

/-- References that can be read; a list has integers only. -/
def VrefsReadable (signal : Signal) (k : String) : Prop :=
  ∀ items, valueOf signal k = some (.list items) → ∀ item ∈ items, isInt (some item) = true

structure BusDescribed (signal : Signal) : Prop where
  busId : isInt (valueOf signal "dse.standards.fmi-ls-bus-topology.bus_id") = true
  mimeType : isString (valueOf signal "mime_type") = true
  encoding : isString (valueOf signal "dse.standards.fmi-ls-binary-to-text.encoding") = true
  start : valueOf signal "fmi_variable_start_value" = none ∨
    isString (valueOf signal "fmi_variable_start_value") = true

def textOf : Option Value → String
  | some (.string s) => s
  | _ => ""

def numberOf : Option Value → Int
  | some (.int n) => n
  | _ => 0

/-- The variable of a scalar; the loop ends where its reference is missing. -/
def scalarExported (signal : Signal) : Option (List ExportedVariable) :=
  (valueOf signal "fmi_variable_vref").map fun vref =>
    [⟨signal.signal, itoa (numberOf (some vref)), textOf (valueOf signal "fmi_variable_causality")⟩]

def busVariables (busId : Int) : Nat → List (Int × Int) → List ExportedVariable
  | _, [] => []
  | id, (rx, tx) :: vrefs =>
      ⟨"network_" ++ itoa busId ++ "_" ++ itoa id ++ "_" ++ "rx", itoa rx, "input"⟩ ::
        ⟨"network_" ++ itoa busId ++ "_" ++ itoa id ++ "_" ++ "tx", itoa tx, "output"⟩ ::
        busVariables busId (id + 1) vrefs

/-- The variables of a bus; the loop ends where their references are missing. -/
def busExported (signal : Signal) : Option (List ExportedVariable) :=
  match vrefsOf signal "dse.standards.fmi-ls-bus-topology.rx_vref",
    vrefsOf signal "dse.standards.fmi-ls-bus-topology.tx_vref" with
  | some rx, some tx =>
      if rx.length ≠ tx.length then none
      else
        some (busVariables (numberOf (valueOf signal "dse.standards.fmi-ls-bus-topology.bus_id")) 1
          (rx.zip tx))
  | _, _ => none

structure BusReadable (signal : Signal) : Prop where
  annotated : signal.annotations.isSome = true
  rx : VrefsReadable signal "dse.standards.fmi-ls-bus-topology.rx_vref"
  tx : (vrefsOf signal "dse.standards.fmi-ls-bus-topology.rx_vref").isSome = true →
    VrefsReadable signal "dse.standards.fmi-ls-bus-topology.tx_vref"
  described : (busExported signal).getD [] ≠ [] → BusDescribed signal

/-- The signals up to the end of a loop, the one at which it ends included. -/
def lookedAt (entry : Signal → Option (List ExportedVariable)) : List Signal → List Signal
  | [] => []
  | s :: signals => if (entry s).isNone then [s] else s :: lookedAt entry signals

structure SignalGroupDoc.Readable (doc : SignalGroupDoc) : Prop where
  scalar : doc.metadata.isBinary = false →
    ∀ s ∈ lookedAt scalarExported doc.signals, ScalarReadable s
  binary : doc.metadata.isBinary = true → ∀ s ∈ lookedAt busExported doc.signals, BusReadable s

def SignalGroupDoc.exported (doc : SignalGroupDoc) : List ExportedVariable :=
  if doc.metadata.isBinary then declaredBy busExported doc.signals
  else declaredBy scalarExported doc.signals

end DseFmi.Generate
