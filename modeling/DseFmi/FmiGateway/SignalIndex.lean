import DseFmi.FmiModelC.TextEncoding

/-!
# Indexing the signals of a gateway

The gateway indexes its scalar signals and the encodings of the binary signals as the ModelC
FMU does. Each of the four loops compares an annotation that a signal need not have.
-/

namespace DseFmi.FmiGateway

open DseFmi.Fmu (HashMap)
open DseFmi.FmiModelC DseFmi.Library

structure GatewayVector extends SignalVector where
  aliasName : String

structure GatewayRuntime where
  signalAnnotation : SignalVector → Nat → String → Option String
  signalIndex : String → String → Option Pointer

structure ModelGatewayDesc where
  sv : List GatewayVector
  sim : SimulationSpec

structure ScalarMaps where
  input : HashMap Pointer
  output : HashMap Pointer

def ScalarMaps.set (maps : ScalarMaps) (vref : String) (scalar : Pointer) (causality : String) :
    ScalarMaps :=
  if causality = "output" then { maps with output := maps.output.insert vref scalar }
  else if causality = "input" then { maps with input := maps.input.insert vref scalar }
  else maps

section Gateway

variable (runtime : GatewayRuntime)

/-- One signal of a vector. Comparing the causality of a signal that has none ends the
program. -/
def indexScalarSignal (sv : GatewayVector) (maps : ScalarMaps) (signal : String × Nat) :
    Option ScalarMaps :=
  match runtime.signalAnnotation sv.toSignalVector signal.2 "fmi_variable_vref" with
  | none => some maps
  | some vref =>
      match runtime.signalIndex sv.aliasName signal.1 with
      | none => some maps
      | some scalar => do
          let causality ← runtime.signalAnnotation sv.toSignalVector signal.2
            "fmi_variable_causality"
          return maps.set vref scalar causality

def indexScalarVector (maps : ScalarMaps) (sv : GatewayVector) : Option ScalarMaps :=
  if sv.isBinary then some maps
  else sv.signal.zipIdx.foldlM (indexScalarSignal runtime sv) maps

def fmigatewayIndexScalarSignals (m : ModelGatewayDesc) (maps : ScalarMaps) : Option ScalarMaps :=
  m.sv.foldlM (indexScalarVector runtime) maps

def fmigatewayIndexTextEncoding {Selector : Type} (schema : Schema Selector)
    (m : ModelGatewayDesc) (maps : EncodingMaps) : Option EncodingMaps :=
  indexTextEncoding runtime.signalAnnotation schema m.sim.instanceList maps

end Gateway

section Variables

variable (runtime : GatewayRuntime)

def gatewayVariable (sv : GatewayVector) (signal : String × Nat) : Option SimbusVariable :=
  match runtime.signalAnnotation sv.toSignalVector signal.2 "fmi_variable_vref" with
  | none => none
  | some vref => (runtime.signalIndex sv.aliasName signal.1).map fun scalar =>
      ⟨vref, scalar, runtime.signalAnnotation sv.toSignalVector signal.2 "fmi_variable_causality"⟩

/-- The scalar signals with a value reference that are found. -/
def gatewayVariables (m : ModelGatewayDesc) : List SimbusVariable :=
  (m.sv.filter fun sv => !sv.isBinary).flatMap fun sv =>
    sv.signal.zipIdx.filterMap (gatewayVariable runtime sv)

def setVariable (maps : ScalarMaps) (v : SimbusVariable) (causality : String) : ScalarMaps :=
  maps.set v.vref v.scalar causality

theorem indexScalarSignal_eq (sv : GatewayVector) (maps : ScalarMaps) (signal : String × Nat) :
    indexScalarSignal runtime sv maps signal =
      match gatewayVariable runtime sv signal with
      | some v => v.causality.map (setVariable maps v)
      | none => some maps := by
  simp only [indexScalarSignal, gatewayVariable]
  cases runtime.signalAnnotation sv.toSignalVector signal.2 "fmi_variable_vref" with
  | none => rfl
  | some vref =>
      cases runtime.signalIndex sv.aliasName signal.1 with
      | none => rfl
      | some scalar =>
          simp only [Option.map_some]
          cases runtime.signalAnnotation sv.toSignalVector signal.2 "fmi_variable_causality" with
          | none => rfl
          | some causality => rfl

/-- The loops visit the variables one after another. -/
theorem fmigatewayIndexScalarSignals_eq (m : ModelGatewayDesc) (maps : ScalarMaps) :
    fmigatewayIndexScalarSignals runtime m maps =
      foldRequired SimbusVariable.causality setVariable (gatewayVariables runtime m) maps := by
  rw [fmigatewayIndexScalarSignals, foldRequired, gatewayVariables, foldlM_flatMap,
    List.foldlM_filter]
  congr
  funext maps sv
  rw [indexScalarVector]
  cases binary : sv.isBinary with
  | true => rfl
  | false =>
      rw [if_neg (by simp), if_pos (by rfl), List.foldlM_filterMap]
      congr
      funext maps signal
      rw [indexScalarSignal_eq]
      cases gatewayVariable runtime sv signal <;> rfl

end Variables

section ModelC

variable (runtime : Runtime) (sim : SimulationSpec)

def indexVariable (fmu : FmuInstanceData) (v : SimbusVariable) (causality : String) :
    FmuInstanceData :=
  indexCausality fmu v.vref v.scalar causality

/-- The FMU has a map, or gets that of the first channel. -/
def HasDirectIndex (fmu : FmuInstanceData) : Prop :=
  fmu.directIndexMap ≠ 0 ∨ ∃ name ∈ (runtime.setToArray (vectorNames sim)).head?,
    directIndexOf runtime sim name ≠ none

def presentScalarSignals (fmu : FmuInstanceData) : FmuInstanceData :=
  let vname := runtime.setToArray (vectorNames sim)
  let fmu := searchMap runtime sim vname fmu vname.length
  if fmu.directIndexMap ≠ 0 then fmu
  else foldPresent SimbusVariable.causality indexVariable (simbusVariables runtime sim) fmu

variable {runtime sim}

theorem directIndexMap_searchMap_iff (fmu : FmuInstanceData) :
    (searchMap runtime sim (runtime.setToArray (vectorNames sim)) fmu
        (runtime.setToArray (vectorNames sim)).length).directIndexMap ≠ 0 ↔
      HasDirectIndex runtime sim fmu := by
  rw [searchMap_eq]
  cases first : (runtime.setToArray (vectorNames sim)).head?.bind (directIndexOf runtime sim) with
  | some found =>
      obtain ⟨name, head, mapped⟩ := Option.bind_eq_some_iff.mp first
      obtain ⟨map, size⟩ := found
      apply iff_of_true
      · exact directIndexOf_map_ne_null mapped
      · exact .inr ⟨name, head, by simp [mapped]⟩
  | none =>
      constructor
      · exact Or.inl
      · rintro (own | ⟨name, head, mapped⟩)
        · exact own
        · rw [Option.mem_def.mp head, Option.bind_some] at first
          exact absurd first mapped

theorem fmimodelcIndexScalarSignals_present_iff (fmu : FmuInstanceData) :
    fmimodelcIndexScalarSignals runtime sim fmu = some (presentScalarSignals runtime sim fmu) ↔
      HasDirectIndex runtime sim fmu ∨ ∀ v ∈ simbusVariables runtime sim, v.causality ≠ none := by
  have loops (start : FmuInstanceData) :
      sim.instanceList.foldlM (FmiModelC.indexScalarInstance runtime sim) start =
        foldRequired SimbusVariable.causality indexVariable (simbusVariables runtime sim) start :=
    foldlM_indexScalarInstance runtime sim start
  rw [← directIndexMap_searchMap_iff, fmimodelcIndexScalarSignals, presentScalarSignals]
  by_cases mapped : (searchMap runtime sim (runtime.setToArray (vectorNames sim)) fmu
      (runtime.setToArray (vectorNames sim)).length).directIndexMap ≠ 0
  · simp only [if_pos mapped]
    exact iff_of_true trivial (.inl mapped)
  · simp only [if_neg mapped, loops]
    rw [foldRequired_eq_foldPresent_iff]
    exact (or_iff_right mapped).symm

end ModelC

/-- Each loop completes with all signals that have the annotation exactly when no signal lacks
it; the ModelC FMU does not look at scalar signals when it has a map. -/
theorem indexing_completes_iff {Selector : Type} (gateway : GatewayRuntime) (runtime : Runtime)
    (schema : Schema Selector) (m : ModelGatewayDesc) (sim : SimulationSpec)
    (fmu : FmuInstanceData) (scalars : ScalarMaps) (encodings : EncodingMaps) :
    (fmigatewayIndexScalarSignals gateway m scalars =
        some (foldPresent SimbusVariable.causality setVariable (gatewayVariables gateway m)
          scalars) ↔
      ∀ v ∈ gatewayVariables gateway m, v.causality ≠ none) ∧
    (fmigatewayIndexTextEncoding gateway schema m encodings =
        some (foldPresent BinarySignal.encoding BinarySignal.index
          (binarySignals gateway.signalAnnotation schema m.sim.instanceList) encodings) ↔
      ∀ s ∈ binarySignals gateway.signalAnnotation schema m.sim.instanceList,
        s.encoding ≠ none) ∧
    (fmimodelcIndexScalarSignals runtime sim fmu = some (presentScalarSignals runtime sim fmu) ↔
      HasDirectIndex runtime sim fmu ∨ ∀ v ∈ simbusVariables runtime sim, v.causality ≠ none) ∧
    (fmimodelcIndexTextEncoding runtime schema sim encodings =
        some (foldPresent BinarySignal.encoding BinarySignal.index
          (binarySignals runtime.signalAnnotation schema sim.instanceList) encodings) ↔
      ∀ s ∈ binarySignals runtime.signalAnnotation schema sim.instanceList,
        s.encoding ≠ none) := by
  refine ⟨?_, ?_, fmimodelcIndexScalarSignals_present_iff fmu, ?_⟩
  · rw [fmigatewayIndexScalarSignals_eq]
    exact foldRequired_eq_foldPresent_iff setVariable _ scalars
  · rw [fmigatewayIndexTextEncoding, indexTextEncoding_eq]
    exact foldRequired_eq_foldPresent_iff BinarySignal.index _ encodings
  · rw [fmimodelcIndexTextEncoding, indexTextEncoding_eq]
    exact foldRequired_eq_foldPresent_iff BinarySignal.index _ encodings

/-- Every signal has a value reference and nothing else. -/
def referenceOnly (_ : SignalVector) (_ : Nat) (name : String) : Option String :=
  if name = "fmi_variable_vref" then some "1" else none

def bareGateway : GatewayRuntime where
  signalAnnotation := referenceOnly
  signalIndex _ _ := some 4096

def bareRuntime : Runtime where
  simbusVectorLookup _ _ _ := ⟨some ⟨4096⟩, 0, 0, 0⟩
  signalAnnotation := referenceOnly
  setToArray added := added.dedup
  mem_setToArray _ _ := List.mem_dedup

def noSchema : Schema Unit := ⟨fun _ => [], fun _ _ => none, fun _ _ => []⟩

def network : SignalVector := ⟨"inst", "network", true, ["can"]⟩

/-- A signal without the annotation ends all four loops. -/
theorem indexing_ends :
    fmigatewayIndexScalarSignals bareGateway ⟨[⟨phys, "phys"⟩], ⟨[]⟩⟩ ⟨∅, ∅⟩ = none ∧
      fmigatewayIndexTextEncoding bareGateway noSchema ⟨[], ⟨[⟨"inst", [network]⟩]⟩⟩ ⟨∅, ∅⟩ =
        none ∧
      fmimodelcIndexScalarSignals bareRuntime ⟨[⟨"inst", [phys]⟩]⟩ noIndex = none ∧
      fmimodelcIndexTextEncoding bareRuntime noSchema ⟨[⟨"inst", [network]⟩]⟩ ⟨∅, ∅⟩ = none :=
  ⟨rfl, rfl, rfl, rfl⟩

end DseFmi.FmiGateway
