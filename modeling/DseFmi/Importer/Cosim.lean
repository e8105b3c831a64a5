import DseFmi.Fmu.Binary
import DseFmi.Importer.Csv
import DseFmi.Importer.SignalBus

/-!
# The co-simulation loops

A step of the importer returns the binary data which the FMU transmitted to the FMU, over the
signal bus. Both versions of FMI have a loop of their own. The FMU is arbitrary: functions on a
state that the importer does not see.
-/

namespace DseFmi.Importer

open DseFmi.Fmu (CLib CString)

/-- The MIME type of a codec and the value of its key `type`. -/
structure BinaryData where
  mimeType : Option String
  type : Option String
  deriving DecidableEq, Repr

structure BinaryVariable where
  vr : UInt32
  info : BinaryData
  deriving DecidableEq, Repr

structure ModelDescription where
  vrRxReal : List UInt32
  vrTxReal : List UInt32
  rxBinary : List BinaryVariable
  txBinary : List BinaryVariable
  deriving DecidableEq, Repr

namespace ModelDescription

def vrRxBinary (desc : ModelDescription) : List UInt32 := desc.rxBinary.map BinaryVariable.vr

def vrTxBinary (desc : ModelDescription) : List UInt32 := desc.txBinary.map BinaryVariable.vr

end ModelDescription

/-- The values in the storage of the description, and what else the loop keeps. -/
structure ImporterState (F D : Type) where
  fmu : F
  network : List NetworkSignal
  valRxReal : List D
  valTxReal : List D
  valRxBinary : List (Option CString)
  valTxBinary : List (Option CString)
  valSizeRxBinary : List Nat
  valSizeTxBinary : List Nat
  modelTime : D
  csv : Option (CsvDesc D)

def oneNetwork : String := "one_network"

section Loopback

variable (lib : CLib) (ncodec : NCodec) (signalBusEnabled : Bool)

/-- From the FMU to the bus. A value that was pushed is released. -/
def pushBinary (network : List NetworkSignal) :
    List (BinaryVariable × Option CString) → List NetworkSignal × List (Option CString)
  | [] => (network, [])
  | (v, val) :: rest =>
      match v.info.mimeType, val with
      | some mimeType, some text =>
          let network := networkPush ncodec signalBusEnabled network oneNetwork mimeType
            (lib.dseAscii85Decode text)
          let (network, vals) := pushBinary network rest
          (network, none :: vals)
      | _, _ =>
          let (network, vals) := pushBinary network rest
          (network, val :: vals)

def frameText (step : Nat) : List UInt8 :=
  ("Hello from Importer (" ++ toString (step + 1) ++ ")").toUTF8.toList ++ [0]

/-- Only the first transmitted variable decides about frames. -/
def injectFrame (txBinary : List BinaryVariable) (step : Nat) (network : List NetworkSignal) :
    List NetworkSignal :=
  match txBinary with
  | [] => network
  | v :: _ =>
      match v.info.mimeType with
      | none => network
      | some mimeType =>
          if v.info.type = some "frame" then
            networkInjectFrame ncodec network oneNetwork mimeType (42 + step * 10) (frameText step)
          else network

def pullBinary (network : List NetworkSignal) :
    List (BinaryVariable × Option CString) → List NetworkSignal × List (Option CString)
  | [] => (network, [])
  | (v, val) :: rest =>
      match v.info.mimeType with
      | some mimeType =>
          let (network, data) := networkPull ncodec network oneNetwork mimeType
          let (network, vals) := pullBinary network rest
          (network, some (lib.dseAscii85Encode data) :: vals)
      | none =>
          let (network, vals) := pullBinary network rest
          (network, val :: vals)

/-- The first part of a step, which both loops share. -/
def loopback {F D : Type} (desc : ModelDescription) (step : Nat) (s : ImporterState F D) :
    ImporterState F D :=
  let network := networkTruncate s.network
  let (network, valTx) := pushBinary lib ncodec signalBusEnabled network
    (desc.txBinary.zip s.valTxBinary)
  let network := injectFrame ncodec desc.txBinary step network
  let (network, valRx) := pullBinary lib ncodec network (desc.rxBinary.zip s.valRxBinary)
  { s with network, valTxBinary := valTx, valRxBinary := valRx }

end Loopback

section Loops

variable {F D : Type} [LinearOrder D] [Add D] (numbers : Numbers D)

/-- The samples up to a time, if there is a CSV file. -/
def applySamplesAt (s : ImporterState F D) (time : D) : ImporterState F D :=
  match s.csv with
  | none => s
  | some c =>
      let (c, applied) := applySamples numbers c s.valRxReal time
      { s with csv := some c, valRxReal := applied.values }

/-- The state before the first step. The storage has been allocated with zeros. -/
def startState (desc : ModelDescription) (fmu : F) (starts txStarts : List D)
    (csv : Option (CsvDesc D)) : ImporterState F D :=
  applySamplesAt numbers
    { fmu
      network := []
      valRxReal := starts
      valTxReal := txStarts
      valRxBinary := desc.rxBinary.map fun _ => none
      valTxBinary := desc.txBinary.map fun _ => none
      valSizeRxBinary := desc.rxBinary.map fun _ => 0
      valSizeTxBinary := desc.txBinary.map fun _ => 0
      modelTime := numbers.zero
      csv } numbers.zero

/-- The functions of an FMU for FMI 2. Getters change the given array. -/
structure Fmi2Functions (F D : Type) where
  setString : F → List UInt32 → List (Option CString) → F
  setReal : F → List UInt32 → List D → F
  doStep : F → D → D → F × Int
  getReal : F → List UInt32 → List D → F × List D
  getString : F → List UInt32 → List (Option CString) → F × List (Option CString)

/-- The binary values that a step offers to the FMU, with sizes in FMI 3, and those which the
FMU returns after it. -/
structure Exchange where
  sizes : List Nat
  offered : List (Option CString)
  returned : List (Option CString)
  deriving DecidableEq, Repr

variable (lib : CLib) (ncodec : NCodec) (signalBusEnabled : Bool) (desc : ModelDescription)
  (stepSize : D)

def fmu2Step (fmi : Fmi2Functions F D) (step : Nat) (s : ImporterState F D) :
    ImporterState F D × Exchange :=
  let s := loopback lib ncodec signalBusEnabled desc step s
  let fmu := fmi.setString s.fmu desc.vrRxBinary s.valRxBinary
  let fmu := fmi.setReal fmu desc.vrRxReal s.valRxReal
  let fmu := (fmi.doStep fmu s.modelTime stepSize).1
  let (fmu, valTxReal) := fmi.getReal fmu desc.vrTxReal s.valTxReal
  let (fmu, valTxBinary) := fmi.getString fmu desc.vrTxBinary s.valTxBinary
  let modelTime := s.modelTime + stepSize
  let next := { s with
    fmu, valTxReal, valTxBinary, modelTime
    valRxBinary := s.valRxBinary.map fun _ => none }
  (applySamplesAt numbers next modelTime, ⟨[], s.valRxBinary, valTxBinary⟩)

/-- The functions of an FMU for FMI 3. The array of sizes is given to the setter as a pointer,
behind which the FMU may leave other sizes. A binary that the getter returns ends with a NUL: the
importer takes it for a text. -/
structure Fmi3Functions (F D : Type) where
  setBinary : F → List UInt32 → List Nat → List (Option CString) → F × List Nat
  setFloat64 : F → List UInt32 → List D → F
  doStep : F → D → D → F × Int
  getFloat64 : F → List UInt32 → List D → F × List D
  getBinary : F → List UInt32 → List Nat → List (Option CString) →
    F × List Nat × List (Option CString)
  length_sizes : ∀ fmu vr sizes vals, (setBinary fmu vr sizes vals).2.length = sizes.length

def fmu3Step (fmi : Fmi3Functions F D) (step : Nat) (s : ImporterState F D) :
    ImporterState F D × Exchange :=
  let s := loopback lib ncodec signalBusEnabled desc step s
  let (fmu, sizes) := fmi.setBinary s.fmu desc.vrRxBinary s.valSizeRxBinary s.valRxBinary
  let fmu := fmi.setFloat64 fmu desc.vrRxReal s.valRxReal
  let fmu := (fmi.doStep fmu s.modelTime stepSize).1
  let (fmu, valTxReal) := fmi.getFloat64 fmu desc.vrTxReal s.valTxReal
  let (fmu, valSizeTxBinary, valTxBinary) :=
    fmi.getBinary fmu desc.vrTxBinary s.valSizeTxBinary s.valTxBinary
  let modelTime := s.modelTime + stepSize
  let next := { s with
    fmu, valTxReal, valTxBinary, valSizeTxBinary, modelTime
    valSizeRxBinary := sizes
    valRxBinary := s.valRxBinary.map fun _ => none }
  (applySamplesAt numbers next modelTime, ⟨s.valSizeRxBinary, s.valRxBinary, valTxBinary⟩)

end Loops

def runSteps {S E : Type} (body : Nat → S → S × E) : Nat → Nat → S → List E
  | 0, _, _ => []
  | steps + 1, step, s =>
      let (next, exchange) := body step s
      exchange :: runSteps body steps (step + 1) next

section Runs

variable {F D : Type} [LinearOrder D] [Add D] (numbers : Numbers D) (lib : CLib)
  (ncodec : NCodec) (signalBusEnabled : Bool) (desc : ModelDescription) (stepSize : D)
  (steps : Nat) (start : ImporterState F D)

def runFmu2Cosim (fmi : Fmi2Functions F D) : List Exchange :=
  runSteps (fmu2Step numbers lib ncodec signalBusEnabled desc stepSize fmi) steps 0 start

def runFmu3Cosim (fmi : Fmi3Functions F D) : List Exchange :=
  runSteps (fmu3Step numbers lib ncodec signalBusEnabled desc stepSize fmi) steps 0 start

end Runs

end DseFmi.Importer
