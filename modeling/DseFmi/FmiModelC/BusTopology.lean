import DseFmi.FmiModelC.TextEncoding
import DseFmi.Generate.Agreement

/-!
# Indexing the binary signals by the topology of their buses

A model description declares an input and an output for each pair of references of a bus. The FMU
indexes the signal of the bus under the same references when it is initialized. Every variable of
the description is then connected to its bus exactly when the buses that share a reference in one
direction are one signal.
-/

namespace DseFmi.FmiModelC

open DseFmi.Fmu (HashMap)
open DseFmi.Generate (Signal SignalGroupDoc ExportedVariable busExported busVariables valueOf
  vrefsOf itoa declaredBy selectedDocs)
open DseFmi.Library

def rxVref : String := "dse.standards.fmi-ls-bus-topology.rx_vref"

def txVref : String := "dse.standards.fmi-ls-bus-topology.tx_vref"

structure TopologyMaps (E : Type) where
  rx : HashMap E
  tx : HashMap E

def TopologyMaps.of {E : Type} (maps : TopologyMaps E) (input : Bool) : HashMap E :=
  if input then maps.rx else maps.tx

def busKey (input : Bool) : String := if input then rxVref else txVref

def directionText (input : Bool) : String := if input then "input" else "output"

section Index

variable {Selector E : Type} (annotationOf : SignalVector → Nat → String → Option String)
  (schema : Schema Selector) (locate : SignalVector → String → Option E)

/-- The references of a list, where a signal that is not located is passed over. -/
def setBinaryVariables (located : Option E) (map : HashMap E) (vrefs : List String) : HashMap E :=
  vrefs.foldl (fun map vref =>
    match located with
    | none => map
    | some entry => map.insert vref entry) map

def indexBinarySignal (mi : ModelInstanceSpec) (sv : SignalVector) (maps : TopologyMaps E)
    (signal : String × Nat) : TopologyMaps E :=
  match annotationOf sv signal.2 "fmi_variable_vref" with
  | none => maps
  | some _ =>
      let rxList := signalAnnotationList schema mi sv signal.1 rxVref
      let txList := signalAnnotationList schema mi sv signal.1 txVref
      { rx := setBinaryVariables (locate sv signal.1) maps.rx (rxList.getD [])
        tx := setBinaryVariables (locate sv signal.1) maps.tx (txList.getD []) }

def indexBinaryVector (mi : ModelInstanceSpec) (maps : TopologyMaps E) (sv : SignalVector) :
    TopologyMaps E :=
  if sv.isBinary then
    sv.signal.zipIdx.foldl (indexBinarySignal annotationOf schema locate mi sv) maps
  else maps

/-- The loops over the instances, which the gateway has as well. -/
def indexBinarySignals (instances : List ModelInstanceSpec) (maps : TopologyMaps E) :
    TopologyMaps E :=
  instances.foldl (fun maps mi =>
    mi.sv.foldl (indexBinaryVector annotationOf schema locate mi) maps) maps

end Index

def simbusLocate (runtime : Runtime) (sim : SimulationSpec) (sv : SignalVector) (signal : String) :
    Option SimbusVectorIndex :=
  let idx := runtime.simbusVectorLookup sim sv.name (some signal)
  if idx.sbv.isSome then some idx else none

def fmimodelcIndexBinarySignals {Selector : Type} (runtime : Runtime) (schema : Schema Selector)
    (sim : SimulationSpec) (maps : TopologyMaps SimbusVectorIndex) :
    TopologyMaps SimbusVectorIndex :=
  indexBinarySignals runtime.signalAnnotation schema (simbusLocate runtime sim) sim.instanceList
    maps

structure RuntimeSignal where
  mi : ModelInstanceSpec
  sv : SignalVector
  signal : String × Nat

def vectorSignals (mi : ModelInstanceSpec) (sv : SignalVector) : List RuntimeSignal :=
  if sv.isBinary then sv.signal.zipIdx.map fun signal => ⟨mi, sv, signal⟩ else []

def runtimeSignals (instances : List ModelInstanceSpec) : List RuntimeSignal :=
  instances.flatMap fun mi => mi.sv.flatMap (vectorSignals mi)

section Connections

variable {Selector E : Type} (annotationOf : SignalVector → Nat → String → Option String)
  (schema : Schema Selector) (locate : SignalVector → String → Option E)

def RuntimeSignal.located (r : RuntimeSignal) : Option E := locate r.sv r.signal.1

/-- The references a signal is indexed under, each with its place. -/
def connections (key : String) (r : RuntimeSignal) : List (String × E) :=
  match annotationOf r.sv r.signal.2 "fmi_variable_vref", r.located locate with
  | some _, some entry =>
      ((signalAnnotationList schema r.mi r.sv r.signal.1 key).getD []).map fun vref => (vref, entry)
  | _, _ => []

def connect (map : HashMap E) (connection : String × E) : HashMap E :=
  map.insert connection.1 connection.2

variable {annotationOf schema locate}

theorem indexBinarySignal_eq (mi : ModelInstanceSpec) (sv : SignalVector) (maps : TopologyMaps E)
    (signal : String × Nat) :
    indexBinarySignal annotationOf schema locate mi sv maps signal =
      { rx := (connections annotationOf schema locate rxVref ⟨mi, sv, signal⟩).foldl connect
          maps.rx
        tx := (connections annotationOf schema locate txVref ⟨mi, sv, signal⟩).foldl connect
          maps.tx } := by
  have skipped : ∀ (vrefs : List String) (map : HashMap E),
      vrefs.foldl (fun map _ => map) map = map := by
    intro vrefs map
    induction vrefs with
    | nil => rfl
    | cons _ _ ih => exact ih
  rw [indexBinarySignal]
  simp only [connections, RuntimeSignal.located]
  cases annotationOf sv signal.2 "fmi_variable_vref" with
  | none => rfl
  | some vref =>
      cases locate sv signal.1 with
      | none => simp only [setBinaryVariables, skipped, List.foldl_nil]
      | some entry => simp only [setBinaryVariables, List.foldl_map, connect]

theorem foldl_connections {α : Type} {step : TopologyMaps E → α → TopologyMaps E}
    {rx tx : α → List (String × E)}
    (steps : ∀ maps a, step maps a =
      ⟨(rx a).foldl connect maps.rx, (tx a).foldl connect maps.tx⟩)
    (items : List α) (maps : TopologyMaps E) :
    items.foldl step maps =
      ⟨(items.flatMap rx).foldl connect maps.rx, (items.flatMap tx).foldl connect maps.tx⟩ := by
  induction items generalizing maps with
  | nil => rfl
  | cons a items ih =>
      rw [List.foldl_cons, ih, steps]
      simp only [List.flatMap_cons, List.foldl_append]

theorem indexBinaryVector_eq (mi : ModelInstanceSpec) (maps : TopologyMaps E) (sv : SignalVector) :
    indexBinaryVector annotationOf schema locate mi maps sv =
      ⟨((vectorSignals mi sv).flatMap
          (connections annotationOf schema locate rxVref)).foldl connect maps.rx,
        ((vectorSignals mi sv).flatMap
          (connections annotationOf schema locate txVref)).foldl connect maps.tx⟩ := by
  rw [indexBinaryVector, vectorSignals]
  cases sv.isBinary with
  | false => rfl
  | true =>
      simp only [if_true, List.flatMap_map]
      exact foldl_connections (indexBinarySignal_eq mi sv) _ _

/-- The loops visit the connections one after another. -/
theorem indexBinarySignals_eq (instances : List ModelInstanceSpec) (maps : TopologyMaps E) :
    indexBinarySignals annotationOf schema locate instances maps =
      ⟨((runtimeSignals instances).flatMap
          (connections annotationOf schema locate rxVref)).foldl connect maps.rx,
        ((runtimeSignals instances).flatMap
          (connections annotationOf schema locate txVref)).foldl connect maps.tx⟩ := by
  simp only [runtimeSignals, List.flatMap_assoc]
  apply foldl_connections
  intro maps mi
  exact foldl_connections (indexBinaryVector_eq mi) mi.sv maps

end Connections

def declaredFor (s : Signal) : List ExportedVariable := (busExported s).getD []

/-- The inputs of a bus have the references of one list, the outputs those of the other. -/
theorem mem_busVariables_iff {busId : Int} {id : Nat} {rx tx : List Int}
    (paired : rx.length = tx.length) (input : Bool) (ref : String) :
    (∃ v ∈ busVariables busId id (rx.zip tx),
        v.causality = directionText input ∧ v.valueReference = ref) ↔
      ref ∈ (if input then rx else tx).map itoa := by
  induction rx generalizing id tx with
  | nil =>
      obtain rfl := List.length_eq_zero_iff.mp paired.symm
      cases input <;> simp [busVariables]
  | cons r rx ih =>
      cases tx with
      | nil => cases paired
      | cons t tx =>
          rw [List.zip_cons_cons, busVariables, List.exists_mem_cons_iff, List.exists_mem_cons_iff,
            ih (Nat.succ.inj paired)]
          cases input <;> simp [directionText, eq_comm]

theorem eq_of_busExported {s : Signal} {vars : List ExportedVariable}
    (exported : busExported s = some vars) :
    ∃ busId rx tx, vrefsOf s rxVref = some rx ∧ vrefsOf s txVref = some tx ∧
      rx.length = tx.length ∧ vars = busVariables busId 1 (rx.zip tx) := by
  rw [busExported] at exported
  split at exported
  next rx tx hrx htx =>
    by_cases mismatch : rx.length ≠ tx.length
    · rw [if_pos mismatch] at exported
      cases exported
    · rw [if_neg mismatch] at exported
      exact ⟨_, rx, tx, hrx, htx, not_not.mp mismatch, (Option.some.inj exported).symm⟩
  · cases exported

theorem busVariables_causality {busId : Int} {id : Nat} {vrefs : List (Int × Int)}
    {v : ExportedVariable} (member : v ∈ busVariables busId id vrefs) :
    ∃ input, v.causality = directionText input := by
  induction vrefs generalizing id with
  | nil => exact absurd member List.not_mem_nil
  | cons pair vrefs ih =>
      rcases List.mem_cons.mp member with rfl | member
      · exact ⟨true, rfl⟩
      · rcases List.mem_cons.mp member with rfl | member
        · exact ⟨false, rfl⟩
        · exact ih member

theorem declaredFor_causality {s : Signal} {v : ExportedVariable} (member : v ∈ declaredFor s) :
    ∃ input, v.causality = directionText input := by
  rw [declaredFor] at member
  cases exported : busExported s with
  | none =>
      rw [exported] at member
      exact absurd member List.not_mem_nil
  | some vars =>
      obtain ⟨_, _, _, _, _, _, rfl⟩ := eq_of_busExported exported
      rw [exported] at member
      exact busVariables_causality member

section Agreement

variable {Selector E : Type} (annotationOf : SignalVector → Nat → String → Option String)
  (schema : Schema Selector) (locate : SignalVector → String → Option E)

/-- What the simulation holds of a signal of the groups: whether it has a reference, and the texts
of its lists. -/
structure Carries (s : Signal) (r : RuntimeSignal) : Prop where
  signal : r.signal.1 = s.signal
  vref : (annotationOf r.sv r.signal.2 "fmi_variable_vref").isSome =
    (valueOf s "fmi_variable_vref").isSome
  list : ∀ input, signalAnnotationList schema r.mi r.sv r.signal.1 (busKey input) =
    (vrefsOf s (busKey input)).map (List.map itoa)

/-- The simulation runs the signals of the groups, in any order, each in any number of
instances. -/
structure Loaded (instances : List ModelInstanceSpec) (signals : List Signal)
    (buses : List (Signal × RuntimeSignal)) : Prop where
  carries : ∀ p ∈ buses, Carries annotationOf schema p.1 p.2
  signals : ∀ s, s ∈ signals ↔ ∃ r, (s, r) ∈ buses
  running : ∀ r, r ∈ runtimeSignals instances ↔ ∃ s, (s, r) ∈ buses

/-- A bus that the description declares whole, which has a reference and is on the SimBus. -/
structure Wired (s : Signal) (r : RuntimeSignal) : Prop where
  declared : (busExported s).isSome = true
  vref : (valueOf s "fmi_variable_vref").isSome = true
  located : (r.located locate).isSome = true

/-- Each variable of a bus is indexed at the signal of the bus. -/
def ReachesBuses (maps : TopologyMaps E) (buses : List (Signal × RuntimeSignal)) : Prop :=
  ∀ p ∈ buses, ∀ v ∈ declaredFor p.1, ∀ input, v.causality = directionText input →
    (maps.of input).lookup v.valueReference = p.2.located locate

/-- Buses that share a reference in a direction are one signal. -/
def SharedAreOne (buses : List (Signal × RuntimeSignal)) : Prop :=
  ∀ p ∈ buses, ∀ q ∈ buses, ∀ v ∈ declaredFor p.1, ∀ w ∈ declaredFor q.1,
    v.causality = w.causality → v.valueReference = w.valueReference →
      p.2.located locate = q.2.located locate

def OnlyDeclared (maps : TopologyMaps E) (buses : List (Signal × RuntimeSignal)) : Prop :=
  ∀ input ref entry, (maps.of input).lookup ref = some entry →
    ∃ p ∈ buses, p.2.located locate = some entry ∧ ∃ v ∈ declaredFor p.1,
      v.causality = directionText input ∧ v.valueReference = ref

variable {annotationOf schema locate}

theorem mem_connections_iff {s : Signal} {r : RuntimeSignal}
    (carries : Carries annotationOf schema s r) (wired : Wired locate s r) (input : Bool)
    (connection : String × E) :
    connection ∈ connections annotationOf schema locate (busKey input) r ↔
      r.located locate = some connection.2 ∧ ∃ v ∈ declaredFor s,
        v.causality = directionText input ∧ v.valueReference = connection.1 := by
  obtain ⟨vref, referenced⟩ := Option.isSome_iff_exists.mp (carries.vref.trans wired.vref)
  obtain ⟨entry, place⟩ := Option.isSome_iff_exists.mp wired.located
  obtain ⟨vars, exported⟩ := Option.isSome_iff_exists.mp wired.declared
  have variables_ : (∃ v ∈ declaredFor s,
      v.causality = directionText input ∧ v.valueReference = connection.1) ↔
      connection.1 ∈ (((vrefsOf s (busKey input)).map (List.map itoa)).getD []) := by
    obtain ⟨busId, rx, tx, hrx, htx, paired, rfl⟩ := eq_of_busExported exported
    rw [declaredFor, exported, Option.getD_some, mem_busVariables_iff paired]
    cases input with
    | true => simp [busKey, hrx]
    | false => simp [busKey, htx]
  rw [variables_, connections, referenced, place, carries.list]
  simp only [List.mem_map, Option.some.injEq]
  constructor
  · rintro ⟨ref, listed, rfl⟩
    exact ⟨rfl, listed⟩
  · rintro ⟨rfl, listed⟩
    exact ⟨connection.1, listed, rfl⟩

section Connected

variable {instances : List ModelInstanceSpec} {signals : List Signal}
  {buses : List (Signal × RuntimeSignal)}

theorem mem_all_connections_iff (loaded : Loaded annotationOf schema instances signals buses)
    (wired : ∀ p ∈ buses, Wired locate p.1 p.2) (input : Bool)
    (connection : String × E) :
    connection ∈ (runtimeSignals instances).flatMap
        (connections annotationOf schema locate (busKey input)) ↔
      ∃ p ∈ buses, p.2.located locate = some connection.2 ∧ ∃ v ∈ declaredFor p.1,
        v.causality = directionText input ∧ v.valueReference = connection.1 := by
  rw [List.mem_flatMap]
  constructor
  · rintro ⟨r, member, connected⟩
    obtain ⟨s, listed⟩ := (loaded.running r).mp member
    have carries := loaded.carries (s, r) listed
    exact ⟨(s, r), listed,
      (mem_connections_iff carries (wired (s, r) listed) input connection).mp connected⟩
  · rintro ⟨p, listed, connected⟩
    have carries := loaded.carries p listed
    refine ⟨p.2, (loaded.running p.2).mpr ⟨p.1, listed⟩, ?_⟩
    exact (mem_connections_iff carries (wired p listed) input connection).mpr connected

theorem of_indexBinarySignals (input : Bool) :
    (indexBinarySignals annotationOf schema locate instances ⟨∅, ∅⟩).of input =
      ((runtimeSignals instances).flatMap
        (connections annotationOf schema locate (busKey input))).foldl connect ∅ := by
  rw [indexBinarySignals_eq]
  cases input <;> rfl

/-- The index reaches every variable exactly when buses that share a reference are one. -/
theorem reachesBuses_iff (loaded : Loaded annotationOf schema instances signals buses)
    (wired : ∀ p ∈ buses, Wired locate p.1 p.2) :
    ReachesBuses locate (indexBinarySignals annotationOf schema locate instances ⟨∅, ∅⟩)
        buses ↔
      SharedAreOne locate buses := by
  constructor
  · intro reaches p first q second v declared w other causality reference
    obtain ⟨input, direction⟩ := declaredFor_causality declared
    have found := reaches p first v declared input direction
    rw [reference, reaches q second w other input (causality.symm.trans direction)] at found
    exact found.symm
  · intro shared p listed v declared input direction
    obtain ⟨entry, place⟩ := Option.isSome_iff_exists.mp (wired p listed).located
    have agree : ∀ a ∈ (runtimeSignals instances).flatMap
          (connections annotationOf schema locate (busKey input)),
        ∀ b ∈ (runtimeSignals instances).flatMap
          (connections annotationOf schema locate (busKey input)), a.1 = b.1 → a.2 = b.2 := by
      intro a first b second same
      obtain ⟨p, hp, placeA, v, hv, causalityA, refA⟩ :=
        (mem_all_connections_iff loaded wired input a).mp first
      obtain ⟨q, hq, placeB, w, hw, causalityB, refB⟩ :=
        (mem_all_connections_iff loaded wired input b).mp second
      have one := shared p hp q hq v hv w hw (causalityA.trans causalityB.symm)
        (refA.trans (same.trans refB.symm))
      rw [placeA, placeB] at one
      exact Option.some.inj one
    rw [of_indexBinarySignals, place]
    apply forall_lookup_foldl_insert_iff.mpr agree (v.valueReference, entry)
    exact (mem_all_connections_iff loaded wired input _).mpr ⟨p, listed, place, v, declared,
      direction, rfl⟩

theorem onlyDeclared_indexBinarySignals
    (loaded : Loaded annotationOf schema instances signals buses)
    (wired : ∀ p ∈ buses, Wired locate p.1 p.2) :
    OnlyDeclared locate (indexBinarySignals annotationOf schema locate instances ⟨∅, ∅⟩)
      buses := by
  intro input ref entry found
  rw [of_indexBinarySignals] at found
  apply (mem_all_connections_iff loaded wired input (ref, entry)).mp
  have last := lookup_foldl_insert_last id ((runtimeSignals instances).flatMap
    (connections annotationOf schema locate (busKey input))) ref ∅
  rw [AList.lookup_empty, Option.or_none] at last
  obtain ⟨⟨other, same⟩, stored, rfl⟩ := Option.map_eq_some_iff.mp (last.symm.trans found)
  obtain ⟨listed, key⟩ := List.mem_filter.mp (List.mem_of_getLast? stored)
  obtain rfl := of_decide_eq_true key
  exact listed

end Connected

end Agreement

/-- The groups that a description of the version 2 is generated from. -/
def plainDocs (signalGroups : String) (docs : List SignalGroupDoc) : List SignalGroupDoc :=
  (selectedDocs signalGroups docs).filter fun doc => !doc.hasIndex

def busSignals (docs : List SignalGroupDoc) : List Signal :=
  (docs.filter fun doc => doc.metadata.isBinary).flatMap SignalGroupDoc.signals

theorem declaredBy_busExported {signals : List Signal}
    (declared : ∀ s ∈ signals, (busExported s).isSome = true) :
    declaredBy busExported signals = signals.flatMap declaredFor := by
  induction signals with
  | nil => rfl
  | cons s signals ih =>
      rw [List.forall_mem_cons] at declared
      obtain ⟨vars, exported⟩ := Option.isSome_iff_exists.mp declared.1
      rw [declaredBy, List.flatMap_cons, declaredFor, exported, ih declared.2, Option.getD_some]

theorem exported_perm {docs : List SignalGroupDoc}
    (declared : ∀ s ∈ busSignals docs, (busExported s).isSome = true) :
    (docs.flatMap SignalGroupDoc.exported).Perm
      ((docs.filter fun doc => !doc.metadata.isBinary).flatMap SignalGroupDoc.exported ++
        (busSignals docs).flatMap declaredFor) := by
  have buses : (docs.filter fun doc => doc.metadata.isBinary).flatMap SignalGroupDoc.exported =
      (busSignals docs).flatMap declaredFor := by
    rw [busSignals, List.flatMap_assoc]
    apply List.flatMap_congr
    intro doc member
    rw [Generate.SignalGroupDoc.exported_binary (List.mem_filter.mp member).2]
    apply declaredBy_busExported
    intro s listed
    exact declared s (List.mem_flatMap.mpr ⟨doc, member, listed⟩)
  rw [← buses]
  have split := List.filter_append_perm (fun doc : SignalGroupDoc => doc.metadata.isBinary) docs
  rw [← List.flatMap_append]
  exact ((List.perm_append_comm.trans split).flatMap_right _).symm

/-- A ModelC FMU that runs the groups of its description indexes nothing else than the binary
variables that the description declares, and reaches all of them exactly when buses that share a
reference in a direction are one signal. -/
theorem fmimodelcIndexBinarySignals_connects {Selector : Type} {runtime : Runtime}
    {schema : Schema Selector} {sim : SimulationSpec} {signalGroups : String}
    {docs : List SignalGroupDoc} {buses : List (Signal × RuntimeSignal)}
    (readable : ∀ doc ∈ selectedDocs signalGroups docs, doc.Readable)
    (loaded : Loaded runtime.signalAnnotation schema sim.instanceList
      (busSignals (plainDocs signalGroups docs)) buses)
    (wired : ∀ p ∈ buses, Wired (simbusLocate runtime sim) p.1 p.2) :
    (∃ md channels,
      Generate.Fmi2.variablesFromSignalgroups (Generate.Fmi2.setGeneralFmuXmlFields []) signalGroups
        docs = .ok (md, channels) ∧
      (Generate.Fmi2.exported md).Perm
        (((plainDocs signalGroups docs).filter fun doc => !doc.metadata.isBinary).flatMap
            SignalGroupDoc.exported ++
          (busSignals (plainDocs signalGroups docs)).flatMap declaredFor)) ∧
      OnlyDeclared (simbusLocate runtime sim)
        (fmimodelcIndexBinarySignals runtime schema sim ⟨∅, ∅⟩) buses ∧
      (ReachesBuses (simbusLocate runtime sim)
          (fmimodelcIndexBinarySignals runtime schema sim ⟨∅, ∅⟩) buses ↔
        SharedAreOne (simbusLocate runtime sim) buses) := by
  refine ⟨?_, onlyDeclared_indexBinarySignals loaded wired, reachesBuses_iff loaded wired⟩
  obtain ⟨md, ran, exports⟩ := Generate.Fmi2.variablesFromSignalgroups_exports readable
  refine ⟨md, _, ran, exports.trans (exported_perm ?_)⟩
  intro s member
  obtain ⟨r, listed⟩ := (loaded.signals s).mp member
  exact (wired (s, r) listed).declared

def pairBus (name : String) (rx tx : Int) : Signal where
  signal := name
  annotations := some (((((((∅ : Generate.Annotations).insert "fmi_variable_vref" (.int rx)).insert
    rxVref (.ints [rx])).insert txVref (.ints [tx])).insert
    "dse.standards.fmi-ls-bus-topology.bus_id" (.int 1)).insert
    "mime_type" (.string "application/x-automotive-bus")).insert
    "dse.standards.fmi-ls-binary-to-text.encoding" (.string "ascii85"))

def twoBusesDoc : SignalGroupDoc where
  name := "network"
  annotations := (∅ : Generate.Annotations).insert "vector_type" (.string "binary")
  labels := ∅
  signals := [pairBus "can" 2 3, pairBus "lin" 4 5]

def pairAnnotations (rx tx : String) (key : String) : Option (List String) :=
  if key = rxVref then some [rx] else if key = txVref then some [tx] else none

def twoBusesSchema : Schema Unit where
  channels _ := [⟨some "network", none⟩]
  buildChannelSelector _ _ := some ()
  objectSearch _ _ :=
    [[⟨"can", some (pairAnnotations "2" "3")⟩, ⟨"lin", some (pairAnnotations "4" "5")⟩]]

def twoBusesRuntime : Runtime where
  simbusVectorLookup _ _ signal := ⟨some ⟨4096⟩, if signal = some "can" then 0 else 1, 0, 0⟩
  signalAnnotation _ _ key := if key = "fmi_variable_vref" then some "2" else none
  setToArray added := added.dedup
  mem_setToArray _ _ := List.mem_dedup

def networkOf (mi : String) (signal : List String) : SignalVector := ⟨mi, "network", true, signal⟩

def gatewayModel : ModelInstanceSpec := ⟨"gateway", [networkOf "gateway" ["can", "lin"]]⟩

def sensorModel : ModelInstanceSpec := ⟨"sensor", [networkOf "sensor" ["can"]]⟩

def twoBusesSimulation : SimulationSpec := ⟨[gatewayModel, sensorModel]⟩

def twoBusesRunning : List (Signal × RuntimeSignal) :=
  [(pairBus "can" 2 3, ⟨gatewayModel, networkOf "gateway" ["can", "lin"], ("can", 0)⟩),
    (pairBus "lin" 4 5, ⟨gatewayModel, networkOf "gateway" ["can", "lin"], ("lin", 1)⟩),
    (pairBus "can" 2 3, ⟨sensorModel, networkOf "sensor" ["can"], ("can", 0)⟩)]

theorem readable_pairBus (name : String) (rx tx : Int) :
    Generate.BusReadable (pairBus name rx tx) := by
  refine ⟨rfl, ?_, ?_, fun _ => ⟨rfl, rfl, rfl, .inl rfl⟩⟩
  · intro items listed
    cases listed
  · intro _ items listed
    cases listed

theorem readable_twoBusesDoc : twoBusesDoc.Readable where
  scalar kind := absurd kind (by decide)
  binary _ s member := by
    have all : Generate.lookedAt busExported twoBusesDoc.signals = twoBusesDoc.signals := rfl
    rw [all] at member
    rcases List.mem_pair.mp member with rfl | rfl
    · exact readable_pairBus "can" 2 3
    · exact readable_pairBus "lin" 4 5

theorem loaded_twoBuses : Loaded twoBusesRuntime.signalAnnotation twoBusesSchema
    twoBusesSimulation.instanceList twoBusesDoc.signals twoBusesRunning where
  carries p member := by
    simp only [twoBusesRunning, List.mem_cons, List.not_mem_nil, or_false] at member
    rcases member with rfl | rfl | rfl
    all_goals
      refine ⟨rfl, rfl, ?_⟩
      intro input
      cases input <;> rfl
  signals s := by
    have listed : s ∈ twoBusesDoc.signals ↔ s ∈ twoBusesRunning.map Prod.fst := by
      simp only [twoBusesDoc, twoBusesRunning, List.map_cons, List.map_nil, List.mem_cons,
        List.not_mem_nil, or_false]
      tauto
    simp [listed]
  running r := by
    have all : runtimeSignals twoBusesSimulation.instanceList = twoBusesRunning.map Prod.snd := rfl
    simp [all]

theorem fmimodelcIndexBinarySignals_connects_twoBuses :
    OnlyDeclared (simbusLocate twoBusesRuntime twoBusesSimulation)
        (fmimodelcIndexBinarySignals twoBusesRuntime twoBusesSchema twoBusesSimulation ⟨∅, ∅⟩)
        twoBusesRunning ∧
      ReachesBuses (simbusLocate twoBusesRuntime twoBusesSimulation)
        (fmimodelcIndexBinarySignals twoBusesRuntime twoBusesSchema twoBusesSimulation ⟨∅, ∅⟩)
        twoBusesRunning := by
  obtain ⟨_, only, reaches⟩ := @fmimodelcIndexBinarySignals_connects Unit twoBusesRuntime
    twoBusesSchema twoBusesSimulation "" [twoBusesDoc] twoBusesRunning
    (by
      intro doc member
      obtain rfl := List.mem_singleton.mp member
      exact readable_twoBusesDoc)
    loaded_twoBuses
    (by
      intro p member
      simp only [twoBusesRunning, List.mem_cons, List.not_mem_nil, or_false] at member
      rcases member with rfl | rfl | rfl <;> exact ⟨rfl, rfl, rfl⟩)
  refine ⟨only, reaches.mpr ?_⟩
  have apart : ∀ v ∈ declaredFor (pairBus "can" 2 3), ∀ w ∈ declaredFor (pairBus "lin" 4 5),
      v.valueReference ≠ w.valueReference := by
    decide
  intro p first q second v hv w hw _ reference
  simp only [twoBusesRunning, List.mem_cons, List.not_mem_nil, or_false] at first second
  rcases first with rfl | rfl | rfl <;> rcases second with rfl | rfl | rfl
  · rfl
  · exact absurd reference (apart v hv w hw)
  · rfl
  · exact absurd reference.symm (apart w hw v hv)
  · rfl
  · exact absurd reference.symm (apart w hw v hv)
  · rfl
  · exact absurd reference (apart v hv w hw)
  · rfl

end DseFmi.FmiModelC
