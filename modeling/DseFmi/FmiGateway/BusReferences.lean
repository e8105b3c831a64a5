import DseFmi.FmiGateway.SignalIndex
import DseFmi.FmiModelC.BusTopology
import DseFmi.Generate.PatchedGroups
import DseFmi.Generate.UniqueReferences

/-!
# The buses of a generated gateway

The generator numbers the signals of a gateway with one counter, which a binary signal does not
advance. The gateway indexes its binary signals under the numbers that the generator has written.
Each of them is reached exactly when no binary signal directly follows another one among the
exported signals.
-/

namespace DseFmi.FmiGateway

open DseFmi.FmiModelC DseFmi.Library
open DseFmi.Generate (Signal SignalGroup Gateway Arguments Export PatchState exportsOf exportsFrom
  groupExports scalarExports exportedBus exportedBinary patchGroup patchGroups patchBinary
  busExported valueOf itoa newFmiGatewayCommand)

structure VectorArrays where
  binary : Pointer
  signal : Pointer
  length : Pointer
  bufferSize : Pointer

structure ModelSignalIndex where
  sv : VectorArrays
  signal : Nat

/-- The entry that the gateway creates, with the arrays of the vector of the runtime. -/
structure FmuSignalVectorIndex where
  sv : VectorArrays
  vi : Nat

/-- The functions of the runtime for binary signals. Nothing is found of a signal without a
buffer. -/
structure BinaryRuntime where
  signalAnnotation : SignalVector → Nat → String → Option String
  aliasName : SignalVector → String
  signalIndex : String → String → Option ModelSignalIndex

def gatewayLocate (runtime : BinaryRuntime) (sv : SignalVector) (signal : String) :
    Option FmuSignalVectorIndex :=
  (runtime.signalIndex (runtime.aliasName sv) signal).map fun idx => ⟨idx.sv, idx.signal⟩

def fmigatewayIndexBinarySignals {Selector : Type} (runtime : BinaryRuntime)
    (schema : Schema Selector) (m : ModelGatewayDesc) (maps : TopologyMaps FmuSignalVectorIndex) :
    TopologyMaps FmuSignalVectorIndex :=
  indexBinarySignals runtime.signalAnnotation schema (gatewayLocate runtime) m.sim.instanceList maps

def binaryReferences : Nat → List Export → List Nat
  | _, [] => []
  | vr, .scalar :: exports => binaryReferences (vr + 1) exports
  | vr, .binary :: exports => vr :: binaryReferences vr exports

theorem binaryReferences_append (vr : Nat) (exports more : List Export) :
    binaryReferences vr (exports ++ more) =
      binaryReferences vr exports ++
        binaryReferences (counter vr (exports.map Export.draw)) more := by
  induction exports generalizing vr with
  | nil => rfl
  | cons e exports ih =>
      rw [List.cons_append, List.map_cons, counter_cons]
      cases e with
      | scalar => exact ih (vr + 1)
      | binary =>
          rw [binaryReferences, binaryReferences, ih, List.cons_append]
          rfl

theorem le_of_mem_binaryReferences {n vr : Nat} {exports : List Export}
    (member : n ∈ binaryReferences vr exports) : vr ≤ n := by
  induction exports generalizing vr with
  | nil => exact absurd member List.not_mem_nil
  | cons e exports ih =>
      cases e with
      | scalar => exact Nat.le_of_succ_le (ih member)
      | binary =>
          rcases List.mem_cons.mp member with rfl | later
          · exact Nat.le_refl _
          · exact ih later

/-- One of two exports that follow each other is a scalar. -/
def Separated (a b : Export) : Prop := a = .scalar ∨ b = .scalar

theorem nodup_binaryReferences_iff (vr : Nat) (exports : List Export) :
    (binaryReferences vr exports).Nodup ↔ exports.IsChain Separated := by
  induction exports generalizing vr with
  | nil => simp [binaryReferences]
  | cons e exports ih =>
      cases e with
      | scalar =>
          rw [binaryReferences, ih, List.isChain_cons, and_iff_right]
          intro b _
          exact .inl rfl
      | binary =>
          rw [binaryReferences, List.nodup_cons, ih, List.isChain_cons]
          apply and_congr_left
          intro _
          cases exports with
          | nil => simp [binaryReferences]
          | cons e exports =>
              cases e with
              | scalar =>
                  apply iff_of_true
                  · intro member
                    exact Nat.not_succ_le_self vr (le_of_mem_binaryReferences member)
                  · intro b first
                    obtain rfl := Option.some.inj first
                    exact .inr rfl
              | binary =>
                  apply iff_of_false
                  · rw [not_not]
                    exact List.mem_cons_self
                  · intro separated
                    rcases separated .binary rfl with other | other <;> cases other

def groupBuses (groups : List SignalGroup) : List Signal :=
  groups.flatMap fun sg => if sg.isBinary then sg.signals else []

def busReference (s : Signal) : Int := Generate.numberOf (valueOf s "fmi_variable_vref")

structure Numbered (vrs : List Nat) (buses : List Signal) : Prop where
  exported : ∀ s ∈ buses, ∃ n t, s = exportedBus n t
  references : buses.map busReference = vrs.map Int.ofNat

theorem valueOf_exportedBus_vref (n : Nat) (t : Signal) :
    valueOf (exportedBus n t) "fmi_variable_vref" = some (.int n) := by
  rw [Generate.valueOf_eq rfl, exportedBinary, Generate.get_insert_ne _ _ (by decide),
    Generate.get_insert_ne _ _ (by decide), Generate.get_insert_ne _ _ (by decide),
    Generate.get_insert_ne _ _ (by decide), Generate.get_insert_ne _ _ (by decide),
    Generate.get_insert_self _ _ (by simp)]

theorem busReference_exportedBus (n : Nat) (t : Signal) : busReference (exportedBus n t) = n := by
  rw [busReference, valueOf_exportedBus_vref, Generate.numberOf]

theorem Numbered.append {vrs wrs : List Nat} {buses more : List Signal}
    (first : Numbered vrs buses) (second : Numbered wrs more) :
    Numbered (vrs ++ wrs) (buses ++ more) := by
  refine ⟨List.forall_mem_append.mpr ⟨first.exported, second.exported⟩, ?_⟩
  rw [List.map_append, List.map_append, first.references, second.references]

theorem numbered_map_exportedBus (vr : Nat) (signals : List Signal) :
    Numbered (binaryReferences vr (signals.map fun _ => .binary))
      (signals.map (exportedBus vr)) := by
  refine ⟨?_, ?_⟩
  · intro s member
    obtain ⟨t, _, rfl⟩ := List.mem_map.mp member
    exact ⟨vr, t, rfl⟩
  · induction signals with
    | nil => rfl
    | cons s signals ih =>
        simp only [List.map_cons, binaryReferences, busReference_exportedBus, ih]
        rfl

theorem binaryReferences_scalarExports (vr : Nat) (usedSignals : List String)
    (signals : List Signal) :
    binaryReferences vr (scalarExports usedSignals signals).2 = [] := by
  induction signals generalizing vr usedSignals with
  | nil => rfl
  | cons s signals ih =>
      rw [scalarExports]
      by_cases used : s.signal ∈ usedSignals
      · rw [if_pos used]
        exact ih vr usedSignals
      · rw [if_neg used]
        dsimp only
        split
        · exact ih vr _
        · exact ih (vr + 1) _

section Merge

variable {name : String} {state after : PatchState}

theorem patchGroup_buses {sg patched : SignalGroup}
    (ran : patchGroup name state sg = .ok (after, patched)) :
    Numbered (binaryReferences state.vr (groupExports state.usedSignals sg).2)
      (if patched.isBinary then patched.signals else []) := by
  obtain ⟨metadata, hmetadata, ran⟩ := bind_eq_ok.mp ran
  obtain ⟨⟨next, signals⟩, hsignals, ran⟩ := bind_eq_ok.mp ran
  cases ran
  have stored := Generate.eq_some_of_deref hmetadata
  have kind : ∀ labels,
      SignalGroup.isBinary { metadata := some { metadata with labels }, signals } =
      metadata.isBinary := fun _ => rfl
  rw [kind, groupExports, stored]
  cases binary : metadata.isBinary with
  | false =>
      simp only [binary, Bool.false_eq_true, if_false, binaryReferences_scalarExports]
      exact ⟨fun _ member => absurd member List.not_mem_nil, rfl⟩
  | true =>
      rw [binary] at hsignals
      obtain ⟨patched, hpatched, hsignals⟩ := bind_eq_ok.mp hsignals
      cases hsignals
      obtain ⟨_, rfl⟩ := Generate.patchBinary_ok_iff.mp hpatched
      simp only [binary, if_true]
      exact numbered_map_exportedBus state.vr sg.signals

theorem patchGroups_buses {groups : List (Except String SignalGroup)}
    {patched : List SignalGroup} (ran : patchGroups name state groups = .ok (after, patched)) :
    Numbered (binaryReferences state.vr
        (exportsFrom state.usedSignals (groups.filterMap Except.toOption)))
      (groupBuses patched) := by
  induction groups generalizing state after patched with
  | nil =>
      cases ran
      exact ⟨fun _ member => absurd member List.not_mem_nil, rfl⟩
  | cons sg groups ih =>
      obtain ⟨sg, read, ran⟩ := bind_eq_ok.mp ran
      obtain ⟨⟨next, first⟩, hfirst, ran⟩ := bind_eq_ok.mp ran
      obtain ⟨⟨last, rest⟩, hrest, ran⟩ := bind_eq_ok.mp ran
      cases ran
      cases Generate.ofResult_eq_ok read
      have patch := Generate.ofGo_eq_ok.mp hfirst
      obtain ⟨_, _, counted⟩ := Generate.patchGroup_spec patch
      have here := patchGroup_buses patch
      have later := ih hrest
      rw [counted] at later
      rw [List.filterMap_cons]
      simp only [Except.toOption, exportsFrom]
      rw [binaryReferences_append, groupBuses, List.flatMap_cons]
      exact here.append later

end Merge

/-- The variables of a bus are an input under its number and an output under the next one. -/
theorem declaredFor_exportedBus (n : Nat) (t : Signal) :
    ∃ rxName txName, declaredFor (exportedBus n t) =
      [⟨rxName, itoa n, "input"⟩, ⟨txName, itoa (n + 1), "output"⟩] := by
  rw [declaredFor, Generate.busExported_exportedBus, Option.getD_some]
  exact ⟨_, _, rfl⟩

/-- Buses share a reference exactly when they have the same number. -/
theorem shares_iff (n m : Nat) (t u : Signal) :
    (∃ v ∈ declaredFor (exportedBus n t), ∃ w ∈ declaredFor (exportedBus m u),
        v.causality = w.causality ∧ v.valueReference = w.valueReference) ↔ n = m := by
  have injective : ∀ i j : Nat, itoa i = itoa j ↔ i = j := by
    intro i j
    exact ⟨fun same => Nat.repr_injective same, congrArg fun i : Nat => itoa i⟩
  obtain ⟨_, _, first⟩ := declaredFor_exportedBus n t
  obtain ⟨_, _, second⟩ := declaredFor_exportedBus m u
  have next : itoa ((n : Int) + 1) = itoa ((m : Int) + 1) ↔ n + 1 = m + 1 := injective _ _
  rw [first, second]
  simp [injective, next]

section Gateway

variable {Selector : Type} {runtime : BinaryRuntime} {schema : Schema Selector}
  {m : ModelGatewayDesc} {buses : List (Signal × RuntimeSignal)}

/-- The signals of a gateway: each binary signal of the groups is on the SimBus, and no two of
them are one signal there. -/
structure Apart (runtime : BinaryRuntime) (buses : List (Signal × RuntimeSignal)) : Prop where
  located : ∀ p ∈ buses, (p.2.located (gatewayLocate runtime)).isSome = true
  one : ∀ p ∈ buses, ∀ q ∈ buses,
    p.2.located (gatewayLocate runtime) = q.2.located (gatewayLocate runtime) ↔ p.1 = q.1

theorem wired_exportedBus {vrs : List Nat} {signals : List Signal}
    (numbered : Numbered vrs signals)
    (loaded : Loaded runtime.signalAnnotation schema m.sim.instanceList signals buses)
    (apart : Apart runtime buses) :
    ∀ p ∈ buses, Wired (gatewayLocate runtime) p.1 p.2 := by
  intro p member
  obtain ⟨n, t, same⟩ := numbered.exported p.1 ((loaded.signals p.1).mpr ⟨p.2, member⟩)
  refine ⟨?_, ?_, apart.located p member⟩
  · rw [same, Generate.busExported_exportedBus]
    rfl
  · rw [same, valueOf_exportedBus_vref]
    rfl

theorem sharedAreOne_iff {vrs : List Nat} {signals : List Signal} (distinct : signals.Nodup)
    (numbered : Numbered vrs signals)
    (loaded : Loaded runtime.signalAnnotation schema m.sim.instanceList signals buses)
    (apart : Apart runtime buses) :
    SharedAreOne (gatewayLocate runtime) buses ↔ vrs.Nodup := by
  have references : vrs.Nodup ↔ (signals.map busReference).Nodup := by
    rw [numbered.references, List.nodup_map_iff fun _ _ => Int.ofNat.inj]
  rw [references, List.nodup_map_iff_inj_on distinct]
  constructor
  · intro shared s first t second same
    obtain ⟨r, hr⟩ := (loaded.signals s).mp first
    obtain ⟨q, hq⟩ := (loaded.signals t).mp second
    obtain ⟨n, s', rfl⟩ := numbered.exported s first
    obtain ⟨k, t', rfl⟩ := numbered.exported t second
    rw [busReference_exportedBus, busReference_exportedBus] at same
    obtain ⟨v, hv, w, hw, causality, reference⟩ :=
      (shares_iff n k s' t').mpr (Int.ofNat.inj same)
    apply (apart.one _ hr _ hq).mp
    exact shared _ hr _ hq v hv w hw causality reference
  · intro injective p hp q hq v hv w hw causality reference
    have first := (loaded.signals p.1).mpr ⟨p.2, hp⟩
    have second := (loaded.signals q.1).mpr ⟨q.2, hq⟩
    apply (apart.one p hp q hq).mpr
    apply injective p.1 first q.1 second
    obtain ⟨n, s', left⟩ := numbered.exported p.1 first
    obtain ⟨k, t', right⟩ := numbered.exported q.1 second
    rw [left] at hv
    rw [right] at hw
    rw [left, right, busReference_exportedBus, busReference_exportedBus,
      (shares_iff n k s' t').mp ⟨v, hv, w, hw, causality, reference⟩]

/-- A gateway that runs the groups its generator has merged indexes nothing else than the binary
variables of these groups, and reaches all of them exactly when no two binary signals follow each
other among the exported signals. -/
theorem fmigatewayIndexBinarySignals_connects_iff {args : Arguments} {c d : Gateway}
    (merged : c.mergeSignalGroups args.name args.signalGroups = .ok d)
    (distinct : (groupBuses d.signalGroupFile).Nodup)
    (loaded : Loaded runtime.signalAnnotation schema m.sim.instanceList
      (groupBuses d.signalGroupFile) buses)
    (apart : Apart runtime buses) :
    OnlyDeclared (gatewayLocate runtime) (fmigatewayIndexBinarySignals runtime schema m ⟨∅, ∅⟩)
        buses ∧
      (ReachesBuses (gatewayLocate runtime)
          (fmigatewayIndexBinarySignals runtime schema m ⟨∅, ∅⟩) buses ↔
        (exportsOf args).IsChain Separated) := by
  obtain ⟨⟨state, groups⟩, patched, merged⟩ := bind_eq_ok.mp merged
  cases merged
  have numbered := patchGroups_buses patched
  have wired := wired_exportedBus numbered loaded apart
  refine ⟨onlyDeclared_indexBinarySignals loaded wired, ?_⟩
  apply (reachesBuses_iff loaded wired).trans
  apply (sharedAreOne_iff distinct numbered loaded apart).trans
  exact nodup_binaryReferences_iff c.signalIdx (exportsOf args)

end Gateway

def canSignal : Signal := ⟨"can", Generate.networkGroup.signals.head?.bind (·.annotations)⟩

def linSignal : Signal := { canSignal with signal := "lin" }

def linGroup : SignalGroup := { Generate.networkGroup with signals := [linSignal] }

def networkVector (name signal : String) : SignalVector := ⟨"fmugw", name, true, [signal]⟩

def networkInstance : ModelInstanceSpec :=
  ⟨"fmugw", [networkVector "can_vector" "can", networkVector "lin_vector" "lin"]⟩

def networkSimulation : ModelGatewayDesc := ⟨[], ⟨[networkInstance]⟩⟩

def networkRuntime : BinaryRuntime where
  signalAnnotation _ _ key := if key = "fmi_variable_vref" then some "1" else none
  aliasName sv := sv.name
  signalIndex name _ := some ⟨⟨4096, 8192, 12288, 16384⟩, if name = "can_vector" then 0 else 1⟩

def networkSchema : Schema Unit where
  channels _ := [⟨some "network_vector", none⟩]
  buildChannelSelector _ _ := some ()
  objectSearch _ _ :=
    [[⟨"can", some (pairAnnotations "0" "1")⟩, ⟨"lin", some (pairAnnotations "1" "2")⟩]]

def networkRunning : List (Signal × RuntimeSignal) :=
  [(exportedBus 0 canSignal, ⟨networkInstance, networkVector "can_vector" "can", ("can", 0)⟩),
    (exportedBus 1 linSignal, ⟨networkInstance, networkVector "lin_vector" "lin", ("lin", 0)⟩)]

theorem loaded_network : Loaded networkRuntime.signalAnnotation networkSchema
    networkSimulation.sim.instanceList (networkRunning.map Prod.fst) networkRunning where
  carries p member := by
    rcases List.mem_pair.mp member with rfl | rfl
    all_goals
      refine ⟨rfl, ?_, ?_⟩
      · rw [valueOf_exportedBus_vref]
        rfl
      · intro input
        cases input <;> rfl
  signals s := by simp
  running r := by
    have all : runtimeSignals networkSimulation.sim.instanceList = networkRunning.map Prod.snd :=
      rfl
    simp [all]

/-- A scalar stands between the two buses of a gateway. -/
theorem fmigatewayIndexBinarySignals_connects_iff_network :
    ReachesBuses (gatewayLocate networkRuntime)
      (fmigatewayIndexBinarySignals networkRuntime networkSchema networkSimulation ⟨∅, ∅⟩)
      networkRunning := by
  obtain ⟨d, merged, buses⟩ : ∃ d, newFmiGatewayCommand.mergeSignalGroups "fmugw"
        [.ok Generate.networkGroup, .ok Generate.scalarGroup, .ok linGroup] = .ok d ∧
      groupBuses d.signalGroupFile = networkRunning.map Prod.fst := ⟨_, rfl, rfl⟩
  have names : exportedBus 0 canSignal ≠ exportedBus 1 linSignal := by
    intro same
    exact absurd (congrArg Signal.signal same) (by decide)
  have places : gatewayLocate networkRuntime (networkVector "can_vector" "can") "can" ≠
      gatewayLocate networkRuntime (networkVector "lin_vector" "lin") "lin" := by
    intro same
    exact absurd (congrArg (Option.map FmuSignalVectorIndex.vi) same) (by decide)
  refine (@fmigatewayIndexBinarySignals_connects_iff Unit networkRuntime networkSchema
    networkSimulation networkRunning
    (Generate.runWith "2" [Generate.networkGroup, Generate.scalarGroup, linGroup])
    newFmiGatewayCommand d merged ?_ ?_ ⟨?_, ?_⟩).2.mpr ?_
  · rw [buses]
    simp [networkRunning, names]
  · rw [buses]
    exact loaded_network
  · intro p member
    rcases List.mem_pair.mp member with rfl | rfl <;> rfl
  · intro p first q second
    rcases List.mem_pair.mp first with rfl | rfl <;> rcases List.mem_pair.mp second with rfl | rfl
    · exact iff_of_true rfl rfl
    · exact iff_of_false places names
    · exact iff_of_false (Ne.symm places) names.symm
    · exact iff_of_true rfl rfl
  · exact List.isChain_cons_cons.mpr ⟨.inr rfl, List.isChain_pair.mpr (.inl rfl)⟩

end DseFmi.FmiGateway
