import DseFmi.Fmu.Data

/-!
# Indexing the signals of a simulation in an FMU

The FMU wraps a simulation. Its scalar variables are the scalar signals on the SimBus, which
it reaches through a map of the whole SimBus or, where there is none, by value reference.
-/

namespace DseFmi.FmiModelC

open DseFmi.Fmu (HashMap)

abbrev Pointer := Nat

structure SignalVector where
  mi : String
  name : String
  isBinary : Bool
  signal : List String

structure ModelInstanceSpec where
  name : String
  sv : List SignalVector

structure SimulationSpec where
  instanceList : List ModelInstanceSpec

structure SimbusVector where
  scalar : Pointer

structure SimbusVectorIndex where
  sbv : Option SimbusVector
  vi : Nat
  directIndexMap : Pointer
  directIndexSize : Nat

/-- The functions of the runtime. A set of names is listed in an order that may depend on the
order they were added in. -/
structure Runtime where
  simbusVectorLookup : SimulationSpec → String → Option String → SimbusVectorIndex
  signalAnnotation : SignalVector → Nat → String → Option String
  setToArray : List String → List String
  mem_setToArray : ∀ added name, name ∈ setToArray added ↔ name ∈ added

structure FmuInstanceData where
  scalarInput : HashMap Pointer
  scalarOutput : HashMap Pointer
  directIndexMap : Pointer
  directIndexSize : UInt32

/-- `&index.sbv->scalar[index.vi]`, unless one of both pointers is `NULL`. -/
def SimbusVectorIndex.address (index : SimbusVectorIndex) : Option Pointer :=
  match index.sbv with
  | none => none
  | some sbv =>
      let scalar := sbv.scalar + 8 * index.vi
      if scalar = 0 then none else some scalar

section Index

variable (runtime : Runtime) (sim : SimulationSpec)

/-- The names of the scalar vectors, as they are added to the set. -/
def vectorNames : List String :=
  sim.instanceList.flatMap fun mi => (mi.sv.filter fun sv => !sv.isBinary).map fun sv => sv.name

/-- The rounds of the search for a map. Every round looks at the first name of the array. -/
def searchMap (vname : List String) (fmu : FmuInstanceData) : Nat → FmuInstanceData
  | 0 => fmu
  | rounds + 1 =>
      match vname[0]? with
      | none => fmu
      | some name =>
          let index := runtime.simbusVectorLookup sim name none
          if index.sbv.isSome ∧ index.directIndexMap ≠ 0 then
            { fmu with
              directIndexMap := index.directIndexMap
              directIndexSize := UInt32.ofNat index.directIndexSize }
          else searchMap vname fmu rounds

def indexCausality (fmu : FmuInstanceData) (vref : String) (scalar : Pointer)
    (causality : String) : FmuInstanceData :=
  if causality = "output" then
    { fmu with scalarOutput := fmu.scalarOutput.insert vref scalar }
  else if causality = "input" then
    { fmu with scalarInput := fmu.scalarInput.insert vref scalar }
  else fmu

/-- One signal of a vector. Comparing the causality of a signal that has none ends the
program. -/
def indexScalarSignal (sv : SignalVector) (fmu : FmuInstanceData) (signal : String × Nat) :
    Option FmuInstanceData :=
  match runtime.signalAnnotation sv signal.2 "fmi_variable_vref" with
  | none => some fmu
  | some vref =>
      match (runtime.simbusVectorLookup sim sv.name (some signal.1)).address with
      | none => some fmu
      | some scalar => do
          let causality ← runtime.signalAnnotation sv signal.2 "fmi_variable_causality"
          return indexCausality fmu vref scalar causality

def indexScalarVector (fmu : FmuInstanceData) (sv : SignalVector) : Option FmuInstanceData :=
  if sv.isBinary then some fmu
  else sv.signal.zipIdx.foldlM (indexScalarSignal runtime sim sv) fmu

def indexScalarInstance (fmu : FmuInstanceData) (mi : ModelInstanceSpec) :
    Option FmuInstanceData :=
  mi.sv.foldlM (indexScalarVector runtime sim) fmu

def fmimodelcIndexScalarSignals (fmu : FmuInstanceData) : Option FmuInstanceData :=
  let vname := runtime.setToArray (vectorNames sim)
  let fmu := searchMap runtime sim vname fmu vname.length
  if fmu.directIndexMap ≠ 0 then some fmu
  else sim.instanceList.foldlM (indexScalarInstance runtime sim) fmu

end Index

end DseFmi.FmiModelC
