import DseFmi.Fmu.VarTableRun
import DseFmi.Importer.Loopback
import DseFmi.Importer.ParsedReals

/-!
# The importer drives an FMU

The co-simulation loop of the importer is run with the FMU of this repository. In every step the
step function is offered the values that the importer holds for the real inputs, and the importer
then holds what the step has left in the real outputs.
-/

namespace DseFmi.Importer

open DseFmi.Fmu
open DseFmi.Library

/-- The text an importer reads at a returned pointer. What is read of a text without a terminator
is not known. -/
def readString (overread : CString) : StringValue → Option CString
  | .null => none
  | .text s => some s
  | .overread => some overread

def fmi2Functions (lib : CLib) (overread : CString) (step : FmuStep) :
    Fmi2Functions FmuInstanceData Double where
  setString fmu vrs vals := fmi2SetString lib fmu (vrs.zip vals)
  setReal fmu vrs vals := fmi2SetReal fmu (vrs.zip vals)
  doStep fmu t h := ((fmi2DoStep step fmu t h).1, (fmi2DoStep step fmu t h).2)
  getReal fmu vrs vals := fmi2GetReal fmu (vrs.zip vals)
  getString fmu vrs _ := (fmu, (fmi2GetString lib fmu vrs).map (readString overread))

def stepState {S E : Type} (body : Nat → S → S × E) (start : S) : Nat → S
  | 0 => start
  | n + 1 => (body n (stepState body start n)).1

section Frame

variable {fmu state : FmuInstanceData} {items : List FmuVarTableMarshalItem}

theorem getScalar_modifyBinary (fmu : FmuInstanceData) (q p : FmuSignalVectorIndex)
    (f : BinarySignal → BinarySignal) : (fmu.modifyBinary q f).getScalar p = fmu.getScalar p := by
  unfold FmuInstanceData.getScalar FmuInstanceData.modifyBinary
  rw [List.getElem?_modify]
  cases fmu.data[p.sv]? with
  | none => simp
  | some sv =>
      by_cases here : q.sv = p.sv
      · simp [here, FmuSignalVector.modifyBinary, FmuSignalVector.getScalar]
      · simp [here]

structure SameReals (fmu gmu : FmuInstanceData) : Prop where
  maps : SameScalarMaps fmu gmu
  scalar : ∀ p, gmu.getScalar p = fmu.getScalar p
  marshalList : gmu.marshalList = fmu.marshalList

theorem SameReals.trans {fmu gmu hmu : FmuInstanceData} (first : SameReals fmu gmu)
    (second : SameReals gmu hmu) : SameReals fmu hmu :=
  ⟨first.maps.trans second.maps, fun p => (second.scalar p).trans (first.scalar p),
    second.marshalList.trans first.marshalList⟩

theorem SameReals.running {gmu : FmuInstanceData} (same : SameReals state gmu)
    (running : Running fmu items state) : Running fmu items gmu :=
  ⟨⟨running.maps.trans same.maps, fun p valid => by
    rw [same.scalar p]
    exact running.storage p valid⟩, same.marshalList.trans running.marshalList⟩

theorem setString_sameReals (lib : CLib) (fmu : FmuInstanceData) (vr : UInt32)
    (value : Option CString) : SameReals fmu (setString lib fmu vr value) := by
  unfold setString
  split
  · exact ⟨⟨rfl, rfl, rfl⟩, fun _ => rfl, rfl⟩
  · split
    · exact ⟨⟨rfl, rfl, rfl⟩, fun _ => rfl, rfl⟩
    · exact ⟨⟨rfl, rfl, rfl⟩, fun p => getScalar_modifyBinary _ _ p _, rfl⟩

theorem reset_sameReals (fmu : FmuInstanceData) : SameReals fmu (fmuDefaultSignalsReset fmu) := by
  refine ⟨?_, getScalar_reset fmu, ?_⟩
  · unfold fmuDefaultSignalsReset
    split
    · exact ⟨rfl, rfl, rfl⟩
    · exact ⟨rfl, rfl, rfl⟩
  · unfold fmuDefaultSignalsReset
    split <;> rfl

theorem fmi2SetString_sameReals (lib : CLib) (fmu : FmuInstanceData)
    (request : List (UInt32 × Option CString)) : SameReals fmu (fmi2SetString lib fmu request) := by
  have general : ∀ gmu, SameReals gmu (setStrings lib gmu request) := by
    induction request with
    | nil => exact fun gmu => ⟨⟨rfl, rfl, rfl⟩, fun _ => rfl, rfl⟩
    | cons entry request ih =>
        exact fun gmu => (setString_sameReals lib gmu entry.1 entry.2).trans (ih _)
  exact (reset_sameReals fmu).trans (general _)

end Frame

/-- What a step of the loop exchanges with the FMU: the step function is called for `before`, in
which the inputs have been set, and the outputs are got from what it leaves. -/
structure RealsExchanged (fmu : FmuInstanceData) (desc : ModelDescription) (step : FmuStep)
    (stepSize : Double) (s next : ImporterState FmuInstanceData Double)
    (before : FmuInstanceData) : Prop where
  lengths : s.valRxReal.length = desc.vrRxReal.length ∧
    next.valTxReal.length = desc.vrTxReal.length
  inputs : ∀ entry ∈ desc.vrRxReal.zip s.valRxReal, ∃ p,
    fmu.scalarInput.lookup (vrIdx entry.1) = some p ∧ (offered before).getScalar p = some entry.2
  others : ∀ p, fmu.getScalar p ≠ none →
    (∀ vr ∈ desc.vrRxReal, fmu.scalarInput.lookup (vrIdx vr) ≠ some p) →
      (offered before).getScalar p = s.fmu.getScalar p
  outputs : ∀ entry ∈ desc.vrTxReal.zip next.valTxReal, ∃ p,
    fmu.scalarOutput.lookup (vrIdx entry.1) = some p ∧
      (fmi2DoStep step before s.modelTime stepSize).1.getScalar p = some entry.2
  fmu : next.fmu = (fmi2DoStep step before s.modelTime stepSize).1

/-- The lists of a description lead to entries of the FMU, each to one of its own. -/
structure Drives (desc : ModelDescription) (fmu : FmuInstanceData) : Prop where
  hashed : fmu.directIndex = none
  nodup : desc.vrRxReal.Nodup
  input : ∀ vr ∈ desc.vrRxReal, ∃ p, fmu.scalarInput.lookup (vrIdx vr) = some p
  output : ∀ vr ∈ desc.vrTxReal, ∃ p, fmu.scalarOutput.lookup (vrIdx vr) = some p
  small : ∀ vr ∈ desc.vrRxReal, vr.toNat < 2 ^ 31
  injective : ∀ k l p, Points fmu k p → Points fmu l p → k = l
  valid : ∀ k p, Points fmu k p → fmu.getScalar p ≠ none

section Step

variable {desc : ModelDescription} {fmu state : FmuInstanceData}
  {items : List FmuVarTableMarshalItem}

theorem vrIdx_injective {v w : UInt32} (hv : v.toNat < 2 ^ 31) (hw : w.toNat < 2 ^ 31)
    (same : vrIdx v = vrIdx w) : v = w := by
  rw [vrIdx_of_lt hv, vrIdx_of_lt hw] at same
  exact UInt32.toNat_inj.mp (Nat.repr_injective same)

/-- The value of a key, in a list in which no key occurs twice. -/
theorem filterMap_key {κ α : Type} {entries : List (κ × α)} {k : κ} {x : α}
    (nodup : (entries.map Prod.fst).Nodup) (member : (k, x) ∈ entries) {f : κ × α → Option α}
    (here : f (k, x) = some x) (other : ∀ entry ∈ entries, entry.1 ≠ k → f entry = none) :
    entries.filterMap f = [x] := by
  induction entries with
  | nil => cases member
  | cons entry entries ih =>
      obtain ⟨fresh, nodup⟩ := List.nodup_cons.mp nodup
      cases List.mem_cons.mp member with
      | inl first =>
          have rest : entries.filterMap f = [] := by
            apply List.filterMap_eq_nil_iff.mpr
            intro e later
            apply other e (List.mem_cons_of_mem _ later)
            intro same
            have key : e.1 = entry.1 := same.trans (congrArg Prod.fst first)
            exact fresh (key ▸ List.mem_map_of_mem (f := Prod.fst) later)
          rw [← first, List.filterMap_cons_some here, rest]
      | inr later =>
          have different : entry.1 ≠ k := by
            intro same
            exact fresh (same ▸ List.mem_map_of_mem (f := Prod.fst) later)
          rw [List.filterMap_cons_none (other entry List.mem_cons_self different)]
          exact ih nodup later fun e listed => other e (List.mem_cons_of_mem _ listed)

theorem Drives.valuesSet_eq (drives : Drives desc fmu) {values : List Double}
    (length : values.length = desc.vrRxReal.length) {vr : UInt32}
    {x : Double} {p : FmuSignalVectorIndex} (entry : (vr, x) ∈ desc.vrRxReal.zip values)
    (leads : fmu.scalarInput.lookup (vrIdx vr) = some p) :
    valuesSet fmu p (.setReal (desc.vrRxReal.zip values)) = [x] := by
  have keys : (desc.vrRxReal.zip values).map Prod.fst = desc.vrRxReal :=
    List.map_fst_zip (Nat.le_of_eq length.symm)
  have nodup : ((desc.vrRxReal.zip values).map Prod.fst).Nodup := by
    rw [keys]
    exact drives.nodup
  apply filterMap_key nodup entry
  · exact if_pos leads
  · intro e listed different
    apply if_neg
    intro found
    have member : ∀ {v : UInt32} {y : Double}, (v, y) ∈ desc.vrRxReal.zip values →
        v ∈ desc.vrRxReal := fun listed => (List.of_mem_zip listed).1
    exact different (vrIdx_injective (drives.small _ (member listed))
      (drives.small _ (member entry)) (drives.injective _ _ p (.inr found) (.inr leads)))

theorem valuesSet_eq_nil {request : Request} {p : FmuSignalVectorIndex}
    (other : ∀ entry ∈ request, fmu.scalarInput.lookup (vrIdx entry.1) ≠ some p) :
    valuesSet fmu p (.setReal request) = [] :=
  List.filterMap_eq_nil_iff.mpr fun entry listed => if_neg (other entry listed)

variable (lib : CLib) (overread : CString) (step : TableStep)

structure BetweenSteps (desc : ModelDescription) (fmu : FmuInstanceData)
    (items : List FmuVarTableMarshalItem) (s : ImporterState FmuInstanceData Double) : Prop where
  running : Running fmu items s.fmu
  rx : s.valRxReal.length = desc.vrRxReal.length
  tx : s.valTxReal.length = desc.vrTxReal.length

/-- The instance for which the step function is called. -/
def steppedInstance (desc : ModelDescription) (s : ImporterState FmuInstanceData Double)
    (valRxBinary : List (Option CString)) : FmuInstanceData :=
  fmi2SetReal (fmi2SetString lib s.fmu (desc.vrRxBinary.zip valRxBinary))
    (desc.vrRxReal.zip s.valRxReal)

theorem getScalar_steppedInstance (drives : Drives desc fmu)
    {s : ImporterState FmuInstanceData Double} (between : BetweenSteps desc fmu items s)
    (valRxBinary : List (Option CString)) {p : FmuSignalVectorIndex}
    (valid : fmu.getScalar p ≠ none) {old : Double} (stored : s.fmu.getScalar p = some old) :
    (steppedInstance lib desc s valRxBinary).getScalar p =
      some ((valuesSet fmu p (.setReal (desc.vrRxReal.zip s.valRxReal))).getLast?.getD old) := by
  have same := fmi2SetString_sameReals lib s.fmu (desc.vrRxBinary.zip valRxBinary)
  exact getScalar_fmi2SetReal drives.hashed (same.running between.running) valid
    ((same.scalar p).trans stored) _

theorem steppedInstance_running (drives : Drives desc fmu)
    {s : ImporterState FmuInstanceData Double} (between : BetweenSteps desc fmu items s)
    (valRxBinary : List (Option CString)) :
    Running fmu items (steppedInstance lib desc s valRxBinary) :=
  fmi2SetReal_running drives.hashed
    ((fmi2SetString_sameReals lib s.fmu _).running between.running) _

/-- The outputs are got from the instance that the step leaves. -/
theorem getReals_outputs (drives : Drives desc fmu) (running : Running fmu items state)
    (values : List Double) (length : values.length = desc.vrTxReal.length) :
    (fmi2GetReal state (desc.vrTxReal.zip values)).1 = state ∧
      (fmi2GetReal state (desc.vrTxReal.zip values)).2.length = desc.vrTxReal.length ∧
      ∀ entry ∈ desc.vrTxReal.zip (fmi2GetReal state (desc.vrTxReal.zip values)).2, ∃ p,
        fmu.scalarOutput.lookup (vrIdx entry.1) = some p ∧
          state.getScalar p = some entry.2 := by
  rw [getReals_indexed (running.maps.directIndex.trans drives.hashed)]
  refine ⟨rfl, by simp [length], ?_⟩
  rintro ⟨vr, y⟩ listed
  obtain ⟨i, bound, entry⟩ := List.getElem_of_mem listed
  simp only [List.getElem_zip, List.getElem_map, Prod.mk.injEq] at entry
  obtain ⟨reference, value⟩ := entry
  obtain ⟨p, found⟩ := drives.output vr (List.of_mem_zip listed).1
  have pointer : state.scalarPointer (vrIdx vr) = some p := by
    rw [running.maps.scalarPointer, FmuInstanceData.scalarPointer, found]
  obtain ⟨stored, holds⟩ := Option.ne_none_iff_exists'.mp
    (running.storage p (drives.valid _ p (.inl found)))
  refine ⟨p, found, ?_⟩
  rw [reference, pointer, Option.bind_some, holds, Option.getD_some] at value
  rw [holds, value]

end Step

section Samples

variable {D : Type} [LinearOrder D] (numbers : Numbers D)

omit [LinearOrder D] in
theorem length_setSignal (values : List D) (v : Option D) (signal : Option Nat) :
    (setSignal values v signal).length = values.length := by
  unfold setSignal
  split
  · exact List.length_set
  · rfl

theorem length_applyCells (index : List Nat) (idx : Nat) (cells : List (List Char))
    (values : List D) :
    (applyCells numbers index idx cells values).length = values.length := by
  induction cells generalizing idx values with
  | nil => rfl
  | cons cell cells ih =>
      rw [applyCells]
      split
      · exact length_setSignal _ _ _
      · rw [ih]
        exact length_setSignal _ _ _

/-- Samples replace values, and the array stays as long as it is. -/
theorem length_applySamples (c : CsvDesc D) (values : List D) (time : D) :
    (applySamples numbers c values time).2.values.length = values.length := by
  induction c, values using applySamples.induct numbers time with
  | case1 c values due next read =>
      rw [applySamples_last values due read]
      exact length_applyCells numbers _ _ _ _
  | case2 c values due sample applied next read last rest following ih =>
      rw [applySamples_next values due read]
      exact ih.trans (length_applyCells numbers _ _ _ _)
  | case3 c values idle => rw [applySamples_idle values idle]

structure SamplesFrame {F : Type} (s next : ImporterState F D) : Prop where
  fmu : next.fmu = s.fmu
  valTxReal : next.valTxReal = s.valTxReal
  modelTime : next.modelTime = s.modelTime
  rx : next.valRxReal.length = s.valRxReal.length

theorem applySamplesAt_frame {F : Type} (s : ImporterState F D) (time : D) :
    SamplesFrame s (applySamplesAt numbers s time) := by
  unfold applySamplesAt
  split
  · exact ⟨rfl, rfl, rfl, rfl⟩
  · exact ⟨rfl, rfl, rfl, length_applySamples numbers _ _ _⟩

end Samples

section Run

variable [LinearOrder Double] [Add Double] (numbers : Numbers Double) (lib : CLib)
  (ncodec : NCodec) (signalBusEnabled : Bool) (overread : CString) {desc : ModelDescription}
  {fmu : FmuInstanceData} {items : List FmuVarTableMarshalItem} (step : TableStep)
  (stepSize : Double)

theorem fmu2Step_frame (desc : ModelDescription) (step : TableStep) (stepSize : Double)
    (s : ImporterState FmuInstanceData Double) (n : Nat) :
    ∃ valRxBinary result, result = (fmi2DoStep step.toFmuStep
        (steppedInstance lib desc s valRxBinary) s.modelTime stepSize).1 ∧
      SamplesFrame
        { s with
          fmu := (fmi2GetReal result (desc.vrTxReal.zip s.valTxReal)).1
          valTxReal := (fmi2GetReal result (desc.vrTxReal.zip s.valTxReal)).2
          modelTime := s.modelTime + stepSize }
        (fmu2Step numbers lib ncodec signalBusEnabled desc stepSize
          (fmi2Functions lib overread step.toFmuStep) n s).1 := by
  refine ⟨(loopback lib ncodec signalBusEnabled desc n s).valRxBinary, _, rfl, ?_⟩
  have frame := fun t : ImporterState FmuInstanceData Double =>
    applySamplesAt_frame numbers t (s.modelTime + stepSize)
  exact ⟨(frame _).fmu, (frame _).valTxReal, (frame _).modelTime, (frame _).rx⟩

theorem fmu2Step_exchanges (drives : Drives desc fmu)
    (distinct : (items.map FmuVarTableMarshalItem.signal).Nodup)
    {s : ImporterState FmuInstanceData Double} (between : BetweenSteps desc fmu items s) (n : Nat) :
    BetweenSteps desc fmu items
        (fmu2Step numbers lib ncodec signalBusEnabled desc stepSize
          (fmi2Functions lib overread step.toFmuStep) n s).1 ∧
      ∃ before, RealsExchanged fmu desc step.toFmuStep stepSize s
        (fmu2Step numbers lib ncodec signalBusEnabled desc stepSize
          (fmi2Functions lib overread step.toFmuStep) n s).1 before := by
  obtain ⟨valRxBinary, result, stepped, frame⟩ :=
    fmu2Step_frame numbers lib ncodec signalBusEnabled overread desc step stepSize s n
  generalize (fmu2Step numbers lib ncodec signalBusEnabled desc stepSize
    (fmi2Functions lib overread step.toFmuStep) n s).1 = next at frame ⊢
  have running := steppedInstance_running lib drives between valRxBinary
  have left := fmi2DoStep_running distinct step running s.modelTime stepSize
  rw [← stepped] at left
  obtain ⟨same, length, outputs⟩ := getReals_outputs drives left s.valTxReal between.tx
  have fmuLeft : next.fmu = result := frame.fmu.trans same
  have received : next.valTxReal.length = desc.vrTxReal.length := by
    rw [frame.valTxReal]
    exact length
  refine ⟨⟨?_, frame.rx.trans between.rx, received⟩, steppedInstance lib desc s valRxBinary, ?_⟩
  · rw [fmuLeft]
    exact left
  · refine ⟨⟨between.rx, received⟩, ?_, ?_, ?_, ?_⟩
    · rintro ⟨vr, x⟩ listed
      obtain ⟨p, leads⟩ := drives.input vr (List.of_mem_zip listed).1
      have valid := drives.valid _ p (.inr leads)
      obtain ⟨old, stored⟩ := Option.ne_none_iff_exists'.mp (between.running.storage p valid)
      refine ⟨p, leads, ?_⟩
      rw [getScalar_offered, getScalar_steppedInstance lib drives between valRxBinary valid stored,
        drives.valuesSet_eq between.rx listed leads]
      rfl
    · intro p valid other
      obtain ⟨old, stored⟩ := Option.ne_none_iff_exists'.mp (between.running.storage p valid)
      have unset : valuesSet fmu p (.setReal (desc.vrRxReal.zip s.valRxReal)) = [] :=
        valuesSet_eq_nil fun entry listed => other entry.1 (List.of_mem_zip listed).1
      rw [getScalar_offered, getScalar_steppedInstance lib drives between valRxBinary valid stored,
        unset, stored]
      rfl
    · rw [frame.valTxReal, ← stepped]
      exact outputs
    · rw [fmuLeft, stepped]

theorem stepState_between (drives : Drives desc fmu)
    (distinct : (items.map FmuVarTableMarshalItem.signal).Nodup)
    {start : ImporterState FmuInstanceData Double} (between : BetweenSteps desc fmu items start)
    (n : Nat) :
    BetweenSteps desc fmu items (stepState (fmu2Step numbers lib ncodec signalBusEnabled desc
      stepSize (fmi2Functions lib overread step.toFmuStep)) start n) := by
  induction n with
  | zero => exact between
  | succ n ih =>
      exact (fmu2Step_exchanges numbers lib ncodec signalBusEnabled overread step stepSize drives
        distinct ih n).1

omit [Add Double] in
theorem startState_between {state : FmuInstanceData} (running : Running fmu items state)
    (starts txStarts : List Double)
    (rx : starts.length = desc.vrRxReal.length) (tx : txStarts.length = desc.vrTxReal.length)
    (csv : Option (CsvDesc Double)) :
    BetweenSteps desc fmu items (startState numbers desc state starts txStarts csv) := by
  have frame := applySamplesAt_frame numbers (F := FmuInstanceData)
  unfold startState
  refine ⟨?_, (frame _ _).rx.trans rx, ?_⟩
  · rw [(frame _ _).fmu]
    exact running
  · rw [(frame _ _).valTxReal]
    exact tx

end Run

section Parsed

variable {atof : String → Double} {zero : Double} {config : CodecConfig} {order : HashOrder}
  {nodes : List VariableNode} {gmu : FmuInstanceData}

theorem isScalarVar_real : isScalarVar "Real" = true := rfl

/-- The lists of the parsed description lead to the entries that the FMU sets up. -/
theorem drives_of_setup {codecs : Codecs} {fmu : FmuInstanceData} (importable : Importable nodes)
    (hashed : gmu.directIndex = none)
    (setup : fmuDefaultSignalsSetup codecs (some (scalarVariables nodes)) fmu = some gmu)
    (indexed : ScalarsIndexed (scalarVariables nodes) gmu) :
    Drives (allocStorage order zero (parseFmi2ModelDesc atof zero config nodes)).desc gmu := by
  have listed : ∀ input vr, vr ∈ (allocStorage order zero
      (parseFmi2ModelDesc atof zero config nodes)).desc.vrReal input ↔
        vr.toNat < 2 ^ 31 ∧ ∃ node ∈ nodes, DeclaresReal node input (vrIdx vr) :=
    fun input vr => mem_vrReal importable input vr
  refine ⟨hashed, nodup_vrReal importable true, ?_, ?_, ?_, indexed.keys.injective, indexed.valid⟩
  · intro vr member
    obtain ⟨-, node, declared, real⟩ := (listed true vr).mp member
    exact indexed.input (node.scalarVariable (vrIdx vr))
      (mem_scalarVariables declared real.valueReference) "Real"
      (importable.first node declared real.real) isScalarVar_real real.causality
  · intro vr member
    obtain ⟨-, node, declared, real⟩ := (listed false vr).mp member
    exact setup_output setup (mem_scalarVariables declared real.valueReference)
      (importable.first node declared real.real) isScalarVar_real real.causality
  · intro vr member
    exact ((listed true vr).mp member).1

theorem length_storage (maps : VrMaps Double) :
    (allocStorage order zero maps).valRxReal.length =
        (allocStorage order zero maps).desc.vrRxReal.length ∧
      (allocStorage order zero maps).valTxReal.length =
        (allocStorage order zero maps).desc.vrTxReal.length := by
  simp [allocStorage, allocReal]

/-- Both sides read the same description. The importer lists the reals that are declared, and in
every step each of its inputs arrives in the entry of its reference and each of its outputs comes
from the entry of its reference, whatever the FMU has been through before. -/
theorem runFmu2Cosim_exchangesReals [LinearOrder Double] [Add Double] (numbers : Numbers Double)
    (lib : CLib) (ncodec : NCodec) (signalBusEnabled : Bool) (overread : CString)
    (order : HashOrder) (atof : String → Double) (config : CodecConfig) (codecs : Codecs)
    {nodes : List VariableNode} (importable : Importable nodes) {fmu : FmuInstanceData}
    (fresh : NoScalars fmu) (hashed : fmu.directIndex = none) :
    ∃ gmu, fmuDefaultSignalsSetup codecs (some (scalarVariables nodes)) fmu = some gmu ∧
      let storage := allocStorage order numbers.zero
        (parseFmi2ModelDesc atof numbers.zero config nodes)
      (∀ input vr, vr ∈ storage.desc.vrReal input ↔
        vr.toNat < 2 ^ 31 ∧ ∃ node ∈ nodes, DeclaresReal node input (vrIdx vr)) ∧
      ∀ items state, Running gmu items state →
        (items.map FmuVarTableMarshalItem.signal).Nodup →
        ∀ (step : TableStep) (stepSize : Double) (csv : Option (CsvDesc Double)) (n : Nat),
          let reached := stepState (fmu2Step numbers lib ncodec signalBusEnabled storage.desc
              stepSize (fmi2Functions lib overread step.toFmuStep))
            (startState numbers storage.desc state storage.valRxReal storage.valTxReal csv)
          ∃ before, RealsExchanged gmu storage.desc step.toFmuStep stepSize
            (reached n) (reached (n + 1)) before := by
  obtain ⟨gmu, setup, indexed, direct⟩ :=
    fmuDefaultSignalsSetup_scalars codecs (scalarVariables nodes) fresh
  refine ⟨gmu, setup, fun input vr => mem_vrReal importable input vr, ?_⟩
  intro items state running distinct step stepSize csv n reached
  have drives : Drives (allocStorage order numbers.zero
      (parseFmi2ModelDesc atof numbers.zero config nodes)).desc gmu :=
    drives_of_setup importable (direct.trans hashed) setup indexed
  obtain ⟨rx, tx⟩ := @length_storage numbers.zero order
    (parseFmi2ModelDesc atof numbers.zero config nodes)
  have start := startState_between numbers running _ _ rx tx csv
  have between := stepState_between numbers lib ncodec signalBusEnabled overread step stepSize
    drives distinct start n
  exact (fmu2Step_exchanges numbers lib ncodec signalBusEnabled overread step stepSize drives
    distinct between n).2

end Parsed

def twoReals : List VariableNode :=
  [⟨"u", some "1", some "input", [.element "Real" (some "5") []]⟩,
    ⟨"y", some "2", some "output", [.element "Real" none []]⟩]

def doubleKey (x : Double) : Int := if x.msb then 2 ^ 63 - 1 - (x.toNat : Int) else x.toNat

theorem doubleKey_injective : Function.Injective doubleKey := by
  intro x y same
  unfold doubleKey at same
  have hx := x.msb_eq_decide
  have hy := y.msb_eq_decide
  apply BitVec.eq_of_toNat_eq
  split at same <;> split at same <;> simp_all <;> omega

@[reducible] def doubleOrder : LinearOrder Double := LinearOrder.lift' doubleKey doubleKey_injective

theorem minusOne_lt_double : doubleOrder.lt 0xBFF0000000000000#64 0 :=
  show doubleKey 0xBFF0000000000000#64 < doubleKey 0 by decide

def readNothing (_ : List Char) : Option Double := none

theorem readNothing_stops (text rest : List Char) (ch : Char)
    (_ : ∃ c ∈ text, isSpace c = false) (_ : isDelimiter ch = true) :
    readNothing (text ++ ch :: rest) = readNothing text := rfl

/-- There is no CSV file, so that no number is read. -/
def noNumbers : @Numbers Double doubleOrder :=
  @Numbers.mk Double doubleOrder 0 0xBFF0000000000000#64 minusOne_lt_double readNothing
    readNothing_stops

theorem importable_twoReals : Importable twoReals := by
  refine ⟨?_, ?_⟩
  · intro node member
    simp only [twoReals, List.mem_cons, List.not_mem_nil, or_false] at member
    rcases member with rfl | rfl
    · exact ⟨1, by decide, by decide⟩
    · exact ⟨2, by decide, by decide⟩
  · intro node member _
    simp only [twoReals, List.mem_cons, List.not_mem_nil, or_false] at member
    rcases member with rfl | rfl <;> rfl

def atofFive (text : String) : Double := if text = "5" then 0x4014000000000000 else 0

/-- The registered input is copied to the registered output. -/
def copyRun (fmu : FmuInstanceData) (_ _ : Double) : FmuInstanceData × Int :=
  ({ fmu with table := fmu.table.store64 16 (fmu.table.load64 8) }, 0)

section CopyRun

variable (fmu : FmuInstanceData) (t h : Double)

theorem copyRun_binaryRx : (copyRun fmu t h).1.binaryRx = fmu.binaryRx := rfl

theorem copyRun_decodeFunc : (copyRun fmu t h).1.decodeFunc = fmu.decodeFunc := rfl

theorem copyRun_allocated (allocated : fmu.Allocated) : (copyRun fmu t h).1.Allocated := allocated

theorem copyRun_valid (p : FmuSignalVectorIndex) (valid : fmu.getBinary p ≠ none) :
    (copyRun fmu t h).1.getBinary p ≠ none := valid

theorem copyRun_scalars : SameScalarMaps fmu (copyRun fmu t h).1 := ⟨rfl, rfl, rfl⟩

theorem copyRun_storage (p : FmuSignalVectorIndex) (stored : fmu.getScalar p ≠ none) :
    (copyRun fmu t h).1.getScalar p ≠ none := stored

end CopyRun

theorem copyRun_marshalList (fmu : FmuInstanceData) (items : List FmuVarTableMarshalItem)
    (t h : Double) :
    copyRun { fmu with marshalList := items } t h =
      ({ (copyRun fmu t h).1 with marshalList := items }, (copyRun fmu t h).2) := rfl

def copyStep : FmuStep where
  run := copyRun
  binaryRx := copyRun_binaryRx
  decodeFunc := copyRun_decodeFunc
  allocated := copyRun_allocated
  valid := copyRun_valid

def copyTableStep : TableStep where
  toFmuStep := copyStep
  scalars := copyRun_scalars
  storage := copyRun_storage
  marshalList := copyRun_marshalList

def twoRealsCalls : List Registration := [⟨1, true, 0⟩, ⟨2, false, 8⟩]

theorem twoRealsRegistrations :
    ∃ regs : Registrations (variablesInstance (scalarVariables twoReals)),
      regs.list = twoRealsCalls :=
  ⟨⟨twoRealsCalls, by decide, by decide, by decide, by decide, by decide⟩, rfl⟩

def registeredReals : FmuInstanceData :=
  registerTable shortKeys lowTable (variablesInstance (scalarVariables twoReals)) twoRealsCalls

def twoRealsStorage : Storage Double :=
  allocStorage listedOrder 0 (parseFmi2ModelDesc atofFive 0 (fun _ => []) twoReals)

def twoRealsAfter (n : Nat) : ImporterState FmuInstanceData Double :=
  stepState (@fmu2Step FmuInstanceData Double doubleOrder inferInstance noNumbers escapingLib
      pduCodecs true twoRealsStorage.desc 1 (fmi2Functions escapingLib ⟨[], nil_no_nul⟩ copyStep))
    (@startState FmuInstanceData Double doubleOrder noNumbers twoRealsStorage.desc registeredReals
      twoRealsStorage.valRxReal twoRealsStorage.valTxReal none) n

/-- The start value of the input is copied to the output. -/
theorem runFmu2Cosim_exchangesReals_twoReals :
    (twoRealsAfter 1).valTxReal = [0x4014000000000000] ∧
      ∃ before, RealsExchanged (variablesInstance (scalarVariables twoReals)) twoRealsStorage.desc
        copyStep 1 (twoRealsAfter 0) (twoRealsAfter 1) before := by
  refine ⟨by decide +kernel, ?_⟩
  obtain ⟨gmu, setup, -, exchanges⟩ := @runFmu2Cosim_exchangesReals doubleOrder inferInstance
    noNumbers escapingLib pduCodecs true ⟨[], nil_no_nul⟩ listedOrder atofFive (fun _ => [])
    (fun _ => false) twoReals importable_twoReals .null noScalars_null rfl
  have same : variablesInstance (scalarVariables twoReals) = gmu := by
    rw [variablesInstance, setup]
    rfl
  subst same
  obtain ⟨regs, list⟩ := twoRealsRegistrations
  have running := registerTable_running shortKeys lowTable regs
  rw [list] at running
  have distinct := regs.items_signals lowTable
  rw [list] at distinct
  exact exchanges _ registeredReals running distinct copyTableStep 1 none 0

end DseFmi.Importer
