import DseFmi.Library.TakeWhile
import DseFmi.Mcl.EncoderFuncs

/-!
# Life-cycle of a model

A model is created, loaded and initialised before it takes its first step. Loading
and initialising touch the adapter only; what the parser and the engine have built
stays as it is. The measurement counts signals up to the first that is not primitive.
-/

namespace DseFmi.Mcl

open DseFmi.Library

/-- An opened FMU library. The adapter calls its functions through the table it fills. -/
structure FmuLibrary where
  symbols : List String
  instantiate : Option String → Bool → Option String → String → Option Nat
  enterInitialization : Nat → Int
  exitInitialization : Nat → Int

/-- What the operating system answers. -/
structure Environment where
  dlopen : Option String → Option FmuLibrary
  measurementFile : String
  fopen : String → Bool

def einval : Int := 22

def fmi2FuncNames : List String :=
  ["fmi2Instantiate", "fmi2SetupExperiment", "fmi2EnterInitializationMode",
    "fmi2ExitInitializationMode", "fmi2GetReal", "fmi2GetInteger", "fmi2GetBoolean",
    "fmi2GetString", "fmi2SetReal", "fmi2SetInteger", "fmi2SetBoolean", "fmi2SetString",
    "fmi2DoStep", "fmi2Terminate", "fmi2FreeInstance"]

def fmi2mclCreate (m : FmuModel) : FmuModel :=
  { m with mcl := { m.mcl with vtable := some .fmi2 }, adapter := some ⟨none, []⟩ }

/-- `none` where no adapter matches; the comparison of a missing string does not return. -/
def fmimclAdapterCreate (m : FmuModel) : Option FmuModel := do
  let adapter ← m.mcl.adapter
  let version ← m.mcl.version
  if adapter = "fmi" then
    if version.toList.take 3 = "2.0".toList then some (fmi2mclCreate m) else none
  else none

def mclCreate (header : MarshalHeader) (doc : FmuYaml) : Option FmuModel := do
  let m := { FmuModel.null with name := doc.modelName }
  let m ← fmimclAdapterCreate (fmimclParse header doc m)
  generateMarshalTable (allocateSource m)

def FmuLibrary.getFunc (library : FmuLibrary) (name : String) : Option String :=
  if name ∈ library.symbols then some name else none

/-- Functions that are not found are logged, which does not fail the load. -/
def fmi2mclLoad (env : Environment) (m : FmuModel) : Int × FmuModel :=
  match env.dlopen m.path with
  | none => (-1, m)
  | some library =>
      (0, { m with
        adapter := m.adapter.map fun a => { a with vtable := fmi2FuncNames.map library.getFunc } })

/-- Enter and leave initialisation; `none` stands for a call through a missing function. -/
def fmi2Initialization (library : FmuLibrary) (adapter : Fmi2Adapter) :
    Option Nat → Option Int
  | none => some einval
  | some inst => do
      let _ ← adapter.vtable[2]?.join
      if library.enterInitialization inst > 0 then some (library.enterInitialization inst)
      else do
        let _ ← adapter.vtable[3]?.join
        if library.exitInitialization inst > 0 then some (library.exitInitialization inst)
        else some 0

def fmi2mclInit (env : Environment) (m : FmuModel) : Option (Int × FmuModel) := do
  let adapter ← m.adapter
  let library ← env.dlopen m.path
  let _ ← adapter.vtable[0]?.join
  let inst := library.instantiate m.name m.cosim m.guid m.resourceDir
  let rc ← fmi2Initialization library adapter inst
  some (rc, { m with adapter := some { adapter with fmi2Inst := inst } })

/-- `mcl_load` and `mcl_init`, which come with the runtime. -/
structure MclLoader where
  load : FmuModel → Option (Int × FmuModel)
  init : FmuModel → Option (Int × FmuModel)

/-- The functions of the adapter are called, as the sequence of an MCL documents. -/
structure MclLoader.CallsAdapter (mcl : MclLoader) (env : Environment) : Prop where
  load : ∀ m, m.mcl.vtable = some .fmi2 → mcl.load m = some (fmi2mclLoad env m)
  init : ∀ m, m.mcl.vtable = some .fmi2 → mcl.init m = fmi2mclInit env m

/-- `mcl_create`, `mcl_load` and `mcl_init` in this order; a failure ends the program. -/
def mclLifeCycle (mcl : MclLoader) (header : MarshalHeader) (doc : FmuYaml) :
    Option FmuModel := do
  let m ← mclCreate header doc
  let (rc, m) ← mcl.load m
  if rc ≠ 0 then none else do
    let (rc, m) ← mcl.init m
    if rc ≠ 0 then none else some m

/-- Counting stops at the first kind that is not primitive. -/
def countPrimitive : List MarshalKind → Nat
  | [] => 0
  | kind :: kinds => if kind ≠ .primitive then 0 else countPrimitive kinds + 1

def getMeasurementFileName (env : Environment) : Option String :=
  if env.measurementFile.length ≠ 0 then some env.measurementFile else none

/-- The measurement file is opened when one is configured; that it cannot be is fatal. -/
def startMeasurement (env : Environment) (m : FmuModel) : Option FmuModel :=
  match getMeasurementFileName env with
  | none => some m
  | some fileName =>
      if env.fopen fileName then
        some { m with measurement :=
          { fileName := some fileName
            cg := some
              { signal := m.mcl.source.signal
                scalar := m.mcl.source.scalar
                count := countPrimitive (m.mcl.source.kind.take m.mcl.source.count) } } }
      else none

/-- `model_create`, without the values it gets from the FMU at the end. -/
def modelCreate (mcl : MclLoader) (env : Environment) (header : MarshalHeader) (doc : FmuYaml) :
    Option FmuModel := do
  let m ← mclLifeCycle mcl header doc
  startMeasurement env m

/-- The adapter is the only part of the descriptor in which the two may differ. -/
def AdapterOnly (m n : FmuModel) : Prop := ∃ adapter, n = { m with adapter }

theorem fmi2mclLoad_adapterOnly (env : Environment) (m : FmuModel) :
    AdapterOnly m (fmi2mclLoad env m).2 := by
  unfold fmi2mclLoad
  split
  · exact ⟨m.adapter, rfl⟩
  · exact ⟨_, rfl⟩

theorem fmi2mclInit_adapterOnly {env : Environment} {m n : FmuModel} {rc : Int}
    (initialised : fmi2mclInit env m = some (rc, n)) : AdapterOnly m n := by
  simp only [fmi2mclInit, Option.bind_eq_bind, Option.bind_eq_some_iff, Option.some.injEq,
    Prod.mk.injEq] at initialised
  obtain ⟨adapter, _, library, _, _, _, _, _, _, rfl⟩ := initialised
  exact ⟨_, rfl⟩

theorem AdapterOnly.vtable {m n : FmuModel} (adapter : AdapterOnly m n) :
    n.mcl.vtable = m.mcl.vtable := by
  obtain ⟨_, rfl⟩ := adapter
  rfl

theorem AdapterOnly.trans {l m n : FmuModel} (first : AdapterOnly l m) (second : AdapterOnly m n) :
    AdapterOnly l n := by
  obtain ⟨_, rfl⟩ := first
  obtain ⟨_, rfl⟩ := second
  exact ⟨_, rfl⟩

/-- A descriptor with the sorted signals of the document, before the engine runs. -/
structure Parsed (header : MarshalHeader) (doc : FmuYaml) (m : FmuModel) : Prop where
  signals : m.signals = sortByMarshalGroup header (parsedSignals doc)
  vtable : m.mcl.vtable = some .fmi2

theorem mclCreate_tabled {header : MarshalHeader} {doc : FmuYaml} {m : FmuModel}
    (created : mclCreate header doc = some m) :
    ∃ parsed, Parsed header doc parsed ∧ m = parsed.tabled := by
  obtain ⟨parsed, adapted, created⟩ := Option.bind_eq_some_iff.mp created
  rw [generateMarshalTable_allocateSource] at created
  refine ⟨parsed, ?_, (Option.some.inj created).symm⟩
  simp only [fmimclAdapterCreate, Option.bind_eq_bind, Option.bind_eq_some_iff] at adapted
  obtain ⟨_, _, _, _, adapted⟩ := adapted
  split at adapted
  · split at adapted
    · rw [← Option.some.inj adapted]
      exact ⟨rfl, rfl⟩
    · simp at adapted
  · simp at adapted

/-- A completed life-cycle leaves the table of the parsed signals. -/
theorem mclLifeCycle_tabled {mcl : MclLoader} {env : Environment} (calls : mcl.CallsAdapter env)
    {header : MarshalHeader} {doc : FmuYaml} {m : FmuModel}
    (started : mclLifeCycle mcl header doc = some m) :
    ∃ parsed, Parsed header doc parsed ∧ AdapterOnly parsed.tabled m := by
  obtain ⟨created, hcreated, load⟩ := Option.bind_eq_some_iff.mp started
  obtain ⟨⟨rc, loaded⟩, hloaded, init⟩ := Option.bind_eq_some_iff.mp load
  obtain ⟨parsed, hparsed, rfl⟩ := mclCreate_tabled hcreated
  have first : AdapterOnly parsed.tabled loaded := by
    rw [calls.load parsed.tabled hparsed.vtable, Option.some.injEq] at hloaded
    have kept := fmi2mclLoad_adapterOnly env parsed.tabled
    rwa [hloaded] at kept
  refine ⟨parsed, hparsed, first.trans ?_⟩
  dsimp only at init
  split at init
  · simp at init
  · obtain ⟨⟨rc, initialised⟩, hinitialised, done⟩ := Option.bind_eq_some_iff.mp init
    dsimp only at done
    split at done
    · simp at done
    · rw [calls.init loaded (first.vtable.trans hparsed.vtable)] at hinitialised
      rw [← Option.some.inj done]
      exact fmi2mclInit_adapterOnly hinitialised

theorem Parsed.mem_signals {header : MarshalHeader} {doc : FmuYaml} {m : FmuModel}
    (parsed : Parsed header doc m) (s : FmuSignal) : s ∈ m.signals ↔ s ∈ parsedSignals doc := by
  rw [parsed.signals]
  exact (sortByMarshalGroup_perm header _).mem_iff

/-- A library that has every function, and an environment that opens it and any file. -/
def stubEnvironment : Environment where
  dlopen _ := some ⟨fmi2FuncNames, fun _ _ _ _ => some 1, fun _ => 0, fun _ => 0⟩
  measurementFile := "measurement.mf4"
  fopen _ := true

/-- The functions that do nothing but call the adapter of a model. -/
def directLoader (env : Environment) : MclLoader where
  load m := m.mcl.vtable.map fun _ => fmi2mclLoad env m
  init m := m.mcl.vtable.bind fun _ => fmi2mclInit env m

theorem directLoader_callsAdapter (env : Environment) : (directLoader env).CallsAdapter env := by
  refine ⟨?_, ?_⟩
  · intro m vtable
    simp [directLoader, vtable]
  · intro m vtable
    simp [directLoader, vtable]

def stubYaml (signalVector networkVector : List SignalNode) : FmuYaml where
  modelName := some "FMU"
  mclAdapter := some "fmi"
  mclVersion := some "2.0"
  fmiModelCosim := true
  fmiModelVersion := some "2.0"
  fmiStepsize := some 0x3f40624dd2f1a9fc
  fmiGuid := some "{11111111-2222-3333-4444-555555555555}"
  fmiResourceDir := none
  path := some "examples/fmu/fmu/binaries/simple.so"
  signalVector := some signalVector
  networkVector := some networkVector

/-- Nothing in the life-cycle loads the encoder functions; to load them is all that is missing. -/
theorem mclLifeCycle_encodersInstalled_iff {mcl : MclLoader} {env : Environment}
    (calls : mcl.CallsAdapter env) {header : MarshalHeader} {doc : FmuYaml} {m : FmuModel}
    (started : mclLifeCycle mcl header doc = some m) :
    (EncodersInstalled m ↔
        ∀ s ∈ parsedSignals doc, s.variableKind = .binary → s.isAscii85 = false) ∧
      EncodersInstalled (loadEncoderFuncs m) := by
  obtain ⟨parsed, hparsed, adapter, rfl⟩ := mclLifeCycle_tabled calls started
  refine ⟨?_, ?_⟩
  · simp only [← hparsed.mem_signals]
    exact tabled_encodersInstalled_iff parsed
  · exact loadEncoderFuncs_installed parsed

/-- One network variable with the encoding annotation. -/
def networkYaml : FmuYaml :=
  stubYaml [] [⟨some "network", ⟨some 100, some "network", some "String", some "input",
    some "ascii85"⟩⟩]

theorem mclLifeCycle_networkYaml_iff :
    ∃ m, mclLifeCycle (directLoader stubEnvironment) marshalHeader networkYaml = some m ∧
      (EncodersInstalled m ↔
        ∀ s ∈ parsedSignals networkYaml, s.variableKind = .binary → s.isAscii85 = false) ∧
      EncodersInstalled (loadEncoderFuncs m) := by
  obtain ⟨m, started⟩ := Option.isSome_iff_exists.mp
    (show (mclLifeCycle (directLoader stubEnvironment) marshalHeader networkYaml).isSome by decide)
  exact ⟨m, started,
    mclLifeCycle_encodersInstalled_iff (directLoader_callsAdapter stubEnvironment) started⟩

theorem networkYaml_not_encodersInstalled :
    ∃ m, mclLifeCycle (directLoader stubEnvironment) marshalHeader networkYaml = some m ∧
      ¬ EncodersInstalled m := by
  obtain ⟨m, started⟩ := Option.isSome_iff_exists.mp
    (show (mclLifeCycle (directLoader stubEnvironment) marshalHeader networkYaml).isSome by decide)
  refine ⟨m, started, fun installed => ?_⟩
  obtain ⟨parsed, hparsed, adapter, rfl⟩ :=
    mclLifeCycle_tabled (directLoader_callsAdapter stubEnvironment) started
  have plain := (tabled_encodersInstalled_iff parsed).mp installed
  simp only [hparsed.mem_signals] at plain
  exact absurd (plain _ (List.mem_singleton.mpr rfl) (by decide)) (by decide)

theorem countPrimitive_eq (signals : List FmuSignal) :
    countPrimitive (signals.map FmuSignal.variableKind) =
      (signals.takeWhile fun s => s.variableKind = .primitive).length := by
  induction signals with
  | nil => rfl
  | cons s signals ih =>
      by_cases primitive : s.variableKind = .primitive <;>
        simp [countPrimitive, primitive, ih]

structure MeasurementCovers (m : FmuModel) (cg : MdfChannelGroup) : Prop where
  count : cg.count = (m.signals.filter fun s => s.variableKind = .primitive).length
  covered : m.signals.take cg.count = m.signals.filter fun s => s.variableKind = .primitive
  signal : cg.signal = m.signals.map FmuSignal.name
  scalar : cg.scalar.length = m.signals.length

/-- No signal is sorted before the primitive ones, or there are no primitive ones. -/
def PrimitivesFirst (header : MarshalHeader) (signals : List FmuSignal) : Prop :=
  (∀ s ∈ signals, ¬ Before header.kinds s.variableKind .primitive) ∨
    ∀ s ∈ signals, s.variableKind ≠ .primitive

theorem MarshalBefore.kind {header : MarshalHeader} {a b : MarshalKey}
    (before : MarshalBefore header a b) : a.kind = b.kind ∨ Before header.kinds a.kind b.kind :=
  (Prod.lex_iff.mp before).symm.imp And.left id

theorem kind_of_ordered {header : MarshalHeader} {s t : FmuSignal}
    (ordered : s.key = t.key ∨ MarshalBefore header s.key t.key) :
    s.variableKind = t.variableKind ∨ Before header.kinds s.variableKind t.variableKind :=
  ordered.elim (fun same => .inl (congrArg MarshalKey.kind same)) MarshalBefore.kind

theorem primitivesFirst_iff {header : MarshalHeader} {signals : List FmuSignal}
    (ordered : signals.Pairwise fun s t => s.key = t.key ∨ MarshalBefore header s.key t.key) :
    (signals.Pairwise fun s t => decide (t.variableKind = .primitive) = true →
      decide (s.variableKind = .primitive) = true) ↔ PrimitivesFirst header signals := by
  simp only [decide_eq_true_eq]
  constructor
  · intro follow
    by_contra mixed
    simp only [PrimitivesFirst, not_or, not_forall, not_not] at mixed
    obtain ⟨⟨s, hs, before⟩, t, ht, primitive⟩ := mixed
    obtain ⟨i, hi, rfl⟩ := List.getElem_of_mem hs
    obtain ⟨j, hj, rfl⟩ := List.getElem_of_mem ht
    rcases Nat.lt_trichotomy i j with less | rfl | greater
    · rw [List.pairwise_iff_getElem.mp follow i j hi hj less primitive] at before
      exact Nat.lt_irrefl _ before
    · rw [primitive] at before
      exact Nat.lt_irrefl _ before
    · have kinds := kind_of_ordered (List.pairwise_iff_getElem.mp ordered j i hj hi greater)
      rw [primitive] at kinds
      rcases kinds with same | after
      · rw [← same] at before
        exact Nat.lt_irrefl _ before
      · exact Nat.lt_irrefl _ (Nat.lt_trans before after)
  · rintro (first | absent)
    · refine ordered.imp_of_mem ?_
      intro s t hs _ related primitive
      rcases kind_of_ordered related with same | before
      · rw [same, primitive]
      · exact absurd (primitive ▸ before) (first s hs)
    · refine ordered.imp_of_mem ?_
      intro s t _ ht _ primitive
      exact absurd primitive (absent t ht)

/-- Counting to the first other kind covers the primitive signals exactly when they come first. -/
theorem measurementCovers_iff {header : MarshalHeader} (m : FmuModel)
    (ordered : m.signals.Pairwise fun s t => s.key = t.key ∨ MarshalBefore header s.key t.key) :
    MeasurementCovers m ⟨m.signals.map FmuSignal.name, List.replicate m.signals.length 0,
        countPrimitive (m.signals.map FmuSignal.variableKind)⟩ ↔
      PrimitivesFirst header m.signals := by
  rw [← primitivesFirst_iff ordered, ← takeWhile_eq_filter_iff, countPrimitive_eq]
  constructor
  · intro covers
    rw [← covers.covered, take_length_takeWhile]
  · intro covered
    exact ⟨by rw [covered], by rw [take_length_takeWhile, covered], rfl, by simp⟩

theorem PrimitivesFirst.congr {header : MarshalHeader} {signals parsed : List FmuSignal}
    (same : ∀ s, s ∈ signals ↔ s ∈ parsed) :
    PrimitivesFirst header signals ↔ PrimitivesFirst header parsed := by
  simp only [PrimitivesFirst, same]

/-- With a measurement file, the channel group is right exactly when no signal of a kind
that is sorted before the primitive kind accompanies a primitive one. -/
theorem modelCreate_measurement_iff {mcl : MclLoader} {env : Environment}
    (calls : mcl.CallsAdapter env) {header : MarshalHeader} {doc : FmuYaml} {m : FmuModel}
    (created : modelCreate mcl env header doc = some m)
    (configured : getMeasurementFileName env ≠ none) :
    ∃ cg, m.measurement.cg = some cg ∧
      (MeasurementCovers m cg ↔ PrimitivesFirst header (parsedSignals doc)) := by
  obtain ⟨started, hstarted, created⟩ := Option.bind_eq_some_iff.mp created
  obtain ⟨parsed, hparsed, adapter, rfl⟩ := mclLifeCycle_tabled calls hstarted
  obtain ⟨fileName, hfile⟩ := Option.ne_none_iff_exists'.mp configured
  rw [startMeasurement, hfile] at created
  dsimp only at created
  split at created
  · rw [← Option.some.inj created]
    refine ⟨_, rfl, ?_⟩
    rw [← PrimitivesFirst.congr hparsed.mem_signals]
    have ordered := sortByMarshalGroup_ordered header (parsedSignals doc)
    rw [← hparsed.signals] at ordered
    have counted : (parsed.signals.map FmuSignal.variableKind).take parsed.signals.length =
        parsed.signals.map FmuSignal.variableKind := List.take_of_length_le (by simp)
    rw [← measurementCovers_iff parsed ordered, ← counted]
    exact ⟨fun covers => ⟨covers.1, covers.2, covers.3, covers.4⟩,
      fun covers => ⟨covers.1, covers.2, covers.3, covers.4⟩⟩
  · simp at created

/-- A real variable next to an enumeration, for which an empty type is generated. -/
def enumerationYaml : FmuYaml :=
  stubYaml [⟨some "gear", ⟨some 1, some "gear", some "", some "output", none⟩⟩,
    ⟨some "speed", ⟨some 2, some "speed", some "Real", some "output", none⟩⟩] []

theorem modelCreate_enumerationYaml_iff :
    ∃ m, modelCreate (directLoader stubEnvironment) stubEnvironment marshalHeader enumerationYaml =
        some m ∧
      ∃ cg, m.measurement.cg = some cg ∧ (MeasurementCovers m cg ↔
        PrimitivesFirst marshalHeader (parsedSignals enumerationYaml)) := by
  obtain ⟨m, created⟩ := Option.isSome_iff_exists.mp
    (show (modelCreate (directLoader stubEnvironment) stubEnvironment marshalHeader
        enumerationYaml).isSome by decide)
  exact ⟨m, created,
    modelCreate_measurement_iff (directLoader_callsAdapter stubEnvironment) created (by decide)⟩

theorem enumerationYaml_not_measurementCovers :
    ∃ m, modelCreate (directLoader stubEnvironment) stubEnvironment marshalHeader enumerationYaml =
        some m ∧
      ∃ cg, m.measurement.cg = some cg ∧ ¬ MeasurementCovers m cg := by
  obtain ⟨m, created⟩ := Option.isSome_iff_exists.mp
    (show (modelCreate (directLoader stubEnvironment) stubEnvironment marshalHeader
        enumerationYaml).isSome by decide)
  have counts : (modelCreate (directLoader stubEnvironment) stubEnvironment marshalHeader
      enumerationYaml).map (fun m => (m.measurement.cg.map MdfChannelGroup.count,
        (m.signals.filter fun s => s.variableKind = .primitive).length)) = some (some 0, 1) := by
    decide
  simp only [created, Option.map_some, Option.some.injEq, Prod.mk.injEq,
    Option.map_eq_some_iff] at counts
  obtain ⟨⟨cg, hcg, none_counted⟩, primitive⟩ := counts
  refine ⟨m, created, cg, hcg, fun covers => ?_⟩
  have := covers.count
  omega

end DseFmi.Mcl
