import DseFmi.FmiModelC.Runtime
import DseFmi.Library.KeyedList
import DseFmi.Library.Success
import Mathlib.Data.List.Dedup

/-!
# The two ways of indexing the scalar signals

The search for a map looks at one channel only, the first of the set. Where that one has no
map but another has, the FMU falls back to value references.
-/

namespace DseFmi.FmiModelC

open DseFmi.Fmu (HashMap)
open DseFmi.Library

structure SimbusVariable where
  vref : String
  scalar : Pointer
  causality : Option String

section Meaning

variable (runtime : Runtime) (sim : SimulationSpec)

def simbusVariable (sv : SignalVector) (signal : String × Nat) : Option SimbusVariable :=
  match runtime.signalAnnotation sv signal.2 "fmi_variable_vref" with
  | none => none
  | some vref =>
      match (runtime.simbusVectorLookup sim sv.name (some signal.1)).address with
      | none => none
      | some scalar =>
          some ⟨vref, scalar, runtime.signalAnnotation sv signal.2 "fmi_variable_causality"⟩

def simbusVariables : List SimbusVariable :=
  sim.instanceList.flatMap fun mi =>
    (mi.sv.filter fun sv => !sv.isBinary).flatMap fun sv =>
      sv.signal.zipIdx.filterMap (simbusVariable runtime sim sv)

def directIndexOf (name : String) : Option (Pointer × Nat) :=
  let index := runtime.simbusVectorLookup sim name none
  if index.sbv.isSome ∧ index.directIndexMap ≠ 0 then
    some (index.directIndexMap, index.directIndexSize)
  else none

def Installs (fmu : FmuInstanceData) : Prop :=
  ∃ name ∈ vectorNames sim,
    directIndexOf runtime sim name = some (fmu.directIndexMap, fmu.directIndexSize.toNat)

/-- The FMU reaches every variable under its reference, in the map for its causality. -/
def Reaches (fmu : FmuInstanceData) : Prop :=
  ∀ v ∈ simbusVariables runtime sim,
    (v.causality = some "output" → fmu.scalarOutput.lookup v.vref = some v.scalar) ∧
      (v.causality = some "input" → fmu.scalarInput.lookup v.vref = some v.scalar)

structure Indexes (fmu : FmuInstanceData) : Prop where
  installs : (∃ name ∈ vectorNames sim, directIndexOf runtime sim name ≠ none) →
    Installs runtime sim fmu
  reaches : (∀ name ∈ vectorNames sim, directIndexOf runtime sim name = none) →
    Reaches runtime sim fmu

/-- The first channel of the array has a map, which with its size cut to 32 bits is that of a
channel. -/
def FirstMapped : Prop :=
  ∃ name ∈ (runtime.setToArray (vectorNames sim)).head?, ∃ map size,
    directIndexOf runtime sim name = some (map, size) ∧
      ∃ other ∈ vectorNames sim,
        directIndexOf runtime sim other = some (map, (UInt32.ofNat size).toNat)

/-- No channel has a map, every variable has a causality, and those that share a reference and
a causality are one. -/
structure NoneMapped : Prop where
  unmapped : ∀ name ∈ vectorNames sim, directIndexOf runtime sim name = none
  causality : ∀ v ∈ simbusVariables runtime sim, v.causality ≠ none
  agree : ∀ causality ∈ ["output", "input"],
    ∀ v ∈ simbusVariables runtime sim, v.causality = some causality →
      ∀ w ∈ simbusVariables runtime sim, w.causality = some causality →
        v.vref = w.vref → v.scalar = w.scalar

end Meaning

variable {runtime : Runtime} {sim : SimulationSpec} {fmu fmu' : FmuInstanceData}

theorem directIndexOf_map_ne_null {name : String} {map : Pointer} {size : Nat}
    (mapped : directIndexOf runtime sim name = some (map, size)) : map ≠ 0 := by
  simp only [directIndexOf] at mapped
  split at mapped
  next present =>
      cases mapped
      exact present.2
  next => cases mapped

theorem searchMap_cons {name : String} {rest : List String} (rounds : Nat) :
    searchMap runtime sim (name :: rest) fmu (rounds + 1) =
      match directIndexOf runtime sim name with
      | some (map, size) =>
          { fmu with directIndexMap := map, directIndexSize := UInt32.ofNat size }
      | none => searchMap runtime sim (name :: rest) fmu rounds := by
  simp only [searchMap, List.getElem?_cons_zero, directIndexOf]
  by_cases mapped : (runtime.simbusVectorLookup sim name none).sbv.isSome ∧
      (runtime.simbusVectorLookup sim name none).directIndexMap ≠ 0
  · simp only [if_pos mapped]
  · simp only [if_neg mapped]

theorem searchMap_of_unmapped {name : String} {rest : List String} (rounds : Nat)
    (unmapped : directIndexOf runtime sim name = none) :
    searchMap runtime sim (name :: rest) fmu rounds = fmu := by
  induction rounds with
  | zero =>
      rfl
  | succ rounds ih =>
      rw [searchMap_cons, unmapped]
      exact ih

theorem searchMap_eq (vname : List String) (fmu : FmuInstanceData) :
    searchMap runtime sim vname fmu vname.length =
      match vname.head?.bind (directIndexOf runtime sim) with
      | some (map, size) =>
          { fmu with directIndexMap := map, directIndexSize := UInt32.ofNat size }
      | none => fmu := by
  cases vname with
  | nil =>
      rfl
  | cons name rest =>
      simp only [List.head?_cons, Option.bind_some]
      cases mapped : directIndexOf runtime sim name with
      | some found =>
          rw [List.length_cons, searchMap_cons, mapped]
      | none =>
          exact searchMap_of_unmapped _ mapped

def SimbusVariable.index (fmu : FmuInstanceData) (v : SimbusVariable) : Option FmuInstanceData :=
  v.causality.map (indexCausality fmu v.vref v.scalar)

theorem indexScalarSignal_eq (sv : SignalVector) (signal : String × Nat) :
    indexScalarSignal runtime sim sv fmu signal =
      match simbusVariable runtime sim sv signal with
      | some v => v.index fmu
      | none => some fmu := by
  simp only [indexScalarSignal, simbusVariable]
  cases runtime.signalAnnotation sv signal.2 "fmi_variable_vref" with
  | none =>
      simp
  | some vref =>
      cases (runtime.simbusVectorLookup sim sv.name (some signal.1)).address with
      | none =>
          simp
      | some scalar =>
          simp only [SimbusVariable.index]
          cases runtime.signalAnnotation sv signal.2 "fmi_variable_causality" <;> rfl

theorem indexScalarVector_eq (sv : SignalVector) (binary : sv.isBinary = false) :
    indexScalarVector runtime sim fmu sv =
      (sv.signal.zipIdx.filterMap (simbusVariable runtime sim sv)).foldlM
        SimbusVariable.index fmu := by
  rw [indexScalarVector, if_neg (by simp [binary]), List.foldlM_filterMap]
  congr
  funext fmu signal
  rw [indexScalarSignal_eq]
  cases simbusVariable runtime sim sv signal <;> rfl

theorem indexScalarInstance_eq (mi : ModelInstanceSpec) :
    indexScalarInstance runtime sim fmu mi =
      ((mi.sv.filter fun sv => !sv.isBinary).flatMap fun sv =>
        sv.signal.zipIdx.filterMap (simbusVariable runtime sim sv)).foldlM
          SimbusVariable.index fmu := by
  rw [indexScalarInstance, foldlM_flatMap, List.foldlM_filter]
  congr
  funext fmu sv
  cases binary : sv.isBinary with
  | true =>
      simp [indexScalarVector, binary]
  | false =>
      simpa using indexScalarVector_eq sv binary

theorem foldlM_indexScalarInstance (runtime : Runtime) (sim : SimulationSpec)
    (fmu : FmuInstanceData) :
    sim.instanceList.foldlM (indexScalarInstance runtime sim) fmu =
      (simbusVariables runtime sim).foldlM SimbusVariable.index fmu := by
  rw [simbusVariables, foldlM_flatMap]
  congr
  funext fmu mi
  exact indexScalarInstance_eq mi

/-- The variables of one causality, written into a map one after another. -/
def written (causality : String) (vars : List SimbusVariable) (map : HashMap Pointer) :
    HashMap Pointer :=
  (vars.filter fun v => v.causality = some causality).foldl
    (fun map v => map.insert v.vref v.scalar) map

structure Written (vars : List SimbusVariable) (fmu fmu' : FmuInstanceData) : Prop where
  output : fmu'.scalarOutput = written "output" vars fmu.scalarOutput
  input : fmu'.scalarInput = written "input" vars fmu.scalarInput
  directIndexMap : fmu'.directIndexMap = fmu.directIndexMap

theorem written_cons_self {v : SimbusVariable} {vars : List SimbusVariable} {causality : String}
    (causal : v.causality = some causality) (map : HashMap Pointer) :
    written causality (v :: vars) map = written causality vars (map.insert v.vref v.scalar) := by
  simp [written, causal]

theorem written_cons_ne {v : SimbusVariable} {vars : List SimbusVariable} {causality : String}
    (other : v.causality ≠ some causality) (map : HashMap Pointer) :
    written causality (v :: vars) map = written causality vars map := by
  simp [written, other]

theorem Written.cons {v : SimbusVariable} {vars : List SimbusVariable} {causality : String}
    (causal : v.causality = some causality)
    (later : Written vars (indexCausality fmu v.vref v.scalar causality) fmu') :
    Written (v :: vars) fmu fmu' := by
  by_cases output : causality = "output"
  · subst output
    constructor
    · rw [written_cons_self causal]
      simpa [indexCausality] using later.output
    · rw [written_cons_ne (by simp [causal])]
      simpa [indexCausality] using later.input
    · simpa [indexCausality] using later.directIndexMap
  · by_cases input : causality = "input"
    · subst input
      constructor
      · rw [written_cons_ne (by simp [causal])]
        simpa [indexCausality] using later.output
      · rw [written_cons_self causal]
        simpa [indexCausality] using later.input
      · simpa [indexCausality] using later.directIndexMap
    · have ignored : indexCausality fmu v.vref v.scalar causality = fmu := by
        simp [indexCausality, output, input]
      rw [ignored] at later
      constructor
      · rw [written_cons_ne (by simp [causal, output])]
        exact later.output
      · rw [written_cons_ne (by simp [causal, input])]
        exact later.input
      · exact later.directIndexMap

theorem written_of_foldlM {vars : List SimbusVariable}
    (ran : vars.foldlM SimbusVariable.index fmu = some fmu') :
    (∀ v ∈ vars, v.causality ≠ none) ∧ Written vars fmu fmu' := by
  induction vars generalizing fmu with
  | nil =>
      cases ran
      exact ⟨by simp, rfl, rfl, rfl⟩
  | cons v vars ih =>
      rw [List.foldlM_cons] at ran
      obtain ⟨between, first, ran⟩ := Option.bind_eq_some_iff.mp ran
      obtain ⟨causality, causal, rfl⟩ := Option.map_eq_some_iff.mp first
      obtain ⟨causalities, later⟩ := ih ran
      exact ⟨by simpa [causal] using causalities, later.cons causal⟩

theorem foldlM_some {vars : List SimbusVariable}
    (causality : ∀ v ∈ vars, v.causality ≠ none) :
    ∃ fmu', vars.foldlM SimbusVariable.index fmu = some fmu' := by
  induction vars generalizing fmu with
  | nil =>
      exact ⟨fmu, rfl⟩
  | cons v vars ih =>
      obtain ⟨given, causal⟩ := Option.ne_none_iff_exists'.mp (causality v List.mem_cons_self)
      obtain ⟨fmu', ran⟩ := @ih (indexCausality fmu v.vref v.scalar given)
        fun w member => causality w (List.mem_cons_of_mem v member)
      refine ⟨fmu', ?_⟩
      simp [SimbusVariable.index, causal, ran]

/-- All variables of one causality are found when those with one reference are one. -/
theorem forall_lookup_written_iff {vars : List SimbusVariable} (causality : String)
    (map : HashMap Pointer) :
    (∀ v ∈ vars, v.causality = some causality →
        (written causality vars map).lookup v.vref = some v.scalar) ↔
      ∀ v ∈ vars, v.causality = some causality → ∀ w ∈ vars, w.causality = some causality →
        v.vref = w.vref → v.scalar = w.scalar := by
  have agreement := @forall_lookup_foldl_insert_iff _ _ _ SimbusVariable.vref _
    SimbusVariable.scalar (vars.filter fun v => v.causality = some causality) map
  simpa [written] using agreement

theorem reaches_iff {vars : List SimbusVariable} (ran : Written vars fmu fmu') :
    (∀ v ∈ vars, (v.causality = some "output" → fmu'.scalarOutput.lookup v.vref = some v.scalar) ∧
        (v.causality = some "input" → fmu'.scalarInput.lookup v.vref = some v.scalar)) ↔
      ∀ causality ∈ ["output", "input"],
        ∀ v ∈ vars, v.causality = some causality → ∀ w ∈ vars, w.causality = some causality →
          v.vref = w.vref → v.scalar = w.scalar := by
  simp only [List.forall_mem_cons, List.not_mem_nil, false_implies, implies_true, and_true,
    ← forall_lookup_written_iff "output" fmu.scalarOutput,
    ← forall_lookup_written_iff "input" fmu.scalarInput, ← ran.output, ← ran.input]
  constructor
  · intro found
    exact ⟨fun v member => (found v member).1, fun v member => (found v member).2⟩
  · rintro ⟨output, input⟩ v member
    exact ⟨output v member, input v member⟩

/-- Without a map of the first channel the signals are indexed by reference. -/
theorem indexes_unmapped_iff (fresh : fmu.directIndexMap = 0) :
    (∃ fmu', (simbusVariables runtime sim).foldlM SimbusVariable.index fmu = some fmu' ∧
        Indexes runtime sim fmu') ↔
      NoneMapped runtime sim := by
  constructor
  · rintro ⟨fmu', ran, indexes⟩
    obtain ⟨causality, maps⟩ := written_of_foldlM ran
    have unmapped : ∀ name ∈ vectorNames sim, directIndexOf runtime sim name = none := by
      intro name member
      by_contra mapped
      obtain ⟨other, _, found⟩ := indexes.installs ⟨name, member, mapped⟩
      exact directIndexOf_map_ne_null found (maps.directIndexMap.trans fresh)
    exact ⟨unmapped, causality, (reaches_iff maps).mp (indexes.reaches unmapped)⟩
  · rintro ⟨unmapped, causality, agree⟩
    obtain ⟨fmu', ran⟩ := @foldlM_some fmu _ causality
    obtain ⟨_, maps⟩ := written_of_foldlM ran
    refine ⟨fmu', ran, ?_, ?_⟩
    · rintro ⟨name, member, mapped⟩
      exact absurd (unmapped name member) mapped
    · intro _
      exact (reaches_iff maps).mpr agree

theorem indexes_mapped_iff {name : String} {map : Pointer} {size : Nat}
    (first : (runtime.setToArray (vectorNames sim)).head? = some name)
    (mapped : directIndexOf runtime sim name = some (map, size)) :
    Indexes runtime sim
        { fmu with directIndexMap := map, directIndexSize := UInt32.ofNat size } ↔
      FirstMapped runtime sim := by
  have member : name ∈ vectorNames sim :=
    (runtime.mem_setToArray (vectorNames sim) name).mp (List.mem_of_mem_head? first)
  constructor
  · intro indexes
    obtain ⟨other, there, found⟩ := indexes.installs ⟨name, member, by simp [mapped]⟩
    exact ⟨name, first, map, size, mapped, other, there, found⟩
  · rintro ⟨again, head, map', size', mapped', other, there, found⟩
    obtain rfl : name = again := Option.some.inj (first.symm.trans head)
    obtain ⟨rfl, rfl⟩ := Prod.mk.inj (Option.some.inj (mapped.symm.trans mapped'))
    refine ⟨fun _ => ⟨other, there, found⟩, ?_⟩
    intro unmapped
    have absent := unmapped name member
    rw [mapped] at absent
    cases absent

theorem fmimodelcIndexScalarSignals_indexes_iff (runtime : Runtime) (sim : SimulationSpec)
    (fmu : FmuInstanceData) (fresh : fmu.directIndexMap = 0) :
    (∃ fmu', fmimodelcIndexScalarSignals runtime sim fmu = some fmu' ∧
        Indexes runtime sim fmu') ↔
      FirstMapped runtime sim ∨ NoneMapped runtime sim := by
  simp only [fmimodelcIndexScalarSignals, searchMap_eq]
  cases first : (runtime.setToArray (vectorNames sim)).head?.bind (directIndexOf runtime sim) with
  | some found =>
      obtain ⟨name, head, mapped⟩ := Option.bind_eq_some_iff.mp first
      obtain ⟨map, size⟩ := found
      have member : name ∈ vectorNames sim :=
        (runtime.mem_setToArray (vectorNames sim) name).mp (List.mem_of_mem_head? head)
      have notNone : ¬ NoneMapped runtime sim := by
        intro none
        have absent := none.unmapped name member
        rw [mapped] at absent
        cases absent
      simp [directIndexOf_map_ne_null mapped, indexes_mapped_iff head mapped, notNone]
  | none =>
      have notFirst : ¬ FirstMapped runtime sim := by
        rintro ⟨name, head, map, size, mapped, _⟩
        rw [Option.mem_def.mp head, Option.bind_some, mapped] at first
        cases first
      simp only [fresh, ne_eq, not_true_eq_false, if_false, foldlM_indexScalarInstance,
        indexes_unmapped_iff fresh]
      simp [notFirst]

/-- A SimBus with two channels, of which the second has a map. The one signal of the first is
an output. -/
def twoChannels : Runtime where
  simbusVectorLookup _ vname _ :=
    if vname = "phys" then ⟨some ⟨4096⟩, 0, 0, 0⟩
    else if vname = "signals" then ⟨some ⟨8192⟩, 0, 16384, 64⟩
    else ⟨none, 0, 0, 0⟩
  signalAnnotation sv _ name :=
    if sv.name = "phys" ∧ name = "fmi_variable_vref" then some "1"
    else if sv.name = "phys" ∧ name = "fmi_variable_causality" then some "output"
    else none
  setToArray added := added.dedup
  mem_setToArray _ _ := List.mem_dedup

def phys : SignalVector := ⟨"inst", "phys", false, ["speed"]⟩

def signals : SignalVector := ⟨"inst", "signals", false, ["counter"]⟩

def noIndex : FmuInstanceData := ⟨∅, ∅, 0, 0⟩

/-- A simulation without a map. -/
theorem fmimodelcIndexScalarSignals_phys :
    ∃ fmu', fmimodelcIndexScalarSignals twoChannels ⟨[⟨"inst", [phys]⟩]⟩ noIndex = some fmu' ∧
      Indexes twoChannels ⟨[⟨"inst", [phys]⟩]⟩ fmu' := by
  have fresh : noIndex.directIndexMap = 0 := rfl
  apply (fmimodelcIndexScalarSignals_indexes_iff twoChannels ⟨[⟨"inst", [phys]⟩]⟩ noIndex
    fresh).mpr
  have vars : simbusVariables twoChannels ⟨[⟨"inst", [phys]⟩]⟩ = [⟨"1", 4096, some "output"⟩] := by
    rfl
  apply Or.inr
  constructor
  · simp [vectorNames, phys, directIndexOf, twoChannels]
  · simp [vars]
  · simp [vars]

/-- The channel with the map is not the first one. -/
theorem fmimodelcIndexScalarSignals_second :
    ¬ ∃ fmu', fmimodelcIndexScalarSignals twoChannels ⟨[⟨"inst", [phys, signals]⟩]⟩ noIndex =
        some fmu' ∧
      Indexes twoChannels ⟨[⟨"inst", [phys, signals]⟩]⟩ fmu' := by
  rintro ⟨fmu', ran, indexes⟩
  have mapped : directIndexOf twoChannels ⟨[⟨"inst", [phys, signals]⟩]⟩ "signals" =
      some (16384, 64) := by
    simp [directIndexOf, twoChannels]
  obtain ⟨name, _, found⟩ := indexes.installs
    ⟨"signals", by simp [vectorNames, phys, signals], by simp [mapped]⟩
  have names : twoChannels.setToArray (vectorNames ⟨[⟨"inst", [phys, signals]⟩]⟩) =
      ["phys", "signals"] := by
    decide
  have unmapped : directIndexOf twoChannels ⟨[⟨"inst", [phys, signals]⟩]⟩ "phys" = none := by
    simp [directIndexOf, twoChannels]
  simp only [fmimodelcIndexScalarSignals, searchMap_eq, names, List.head?_cons, Option.bind_some,
    unmapped] at ran
  have indexed := (foldlM_indexScalarInstance twoChannels _ _).symm.trans ran
  have kept := (written_of_foldlM indexed).2.directIndexMap
  exact directIndexOf_map_ne_null found kept

end DseFmi.FmiModelC
