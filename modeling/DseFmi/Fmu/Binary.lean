import DseFmi.Fmu.Real
import DseFmi.Fmu.Signal
import DseFmi.Fmu.Variable

/-!
# Exchange of binary variables

An FMI 2 importer sets and reads binary variables as strings. What it sets is appended to
the signals until the next step. The first set after a step, or else the next step, resets
the signals.
-/

namespace DseFmi.Fmu

open DseFmi.Library

/-- The functions of the C library. -/
structure CLib where
  dseBufferAppend : Buffer → List UInt8 → Buffer
  dseAscii85Encode : List UInt8 → CString
  dseAscii85Decode : CString → List UInt8
  content_append : ∀ b data, (dseBufferAppend b data).content = b.content ++ data

def CLib.encode (lib : CLib) : EncodeFunc → List UInt8 → CString
  | .dseAscii85Encode => lib.dseAscii85Encode

def CLib.decode (lib : CLib) : DecodeFunc → CString → List UInt8
  | .dseAscii85Decode => lib.dseAscii85Decode

def CLib.append (lib : CLib) (data : List UInt8) (s : BinarySignal) : BinarySignal :=
  { s with buffer := lib.dseBufferAppend s.buffer data }

/-- A returned string; without a terminator in the buffer, its copy reads on behind it. -/
inductive StringValue where
  | null
  | text (s : CString)
  | overread
  deriving DecidableEq, Repr

def strdup (data : List UInt8) : StringValue :=
  if 0 ∈ data then .text ⟨data.takeWhile (· ≠ 0), fun nul => by
    simpa using List.mem_takeWhile_imp nul⟩
  else .overread

section Calls

variable (lib : CLib)

def getString (fmu : FmuInstanceData) (vr : UInt32) : StringValue :=
  match (fmu.binaryTx.lookup (vrIdx vr)).bind fmu.getBinary with
  | none => .null
  | some signal =>
      match signal.buffer.binary with
      | none => .null
      | some data =>
          if signal.buffer.length = 0 then .null
          else
            match fmu.encodeFunc.lookup (vrIdx vr) with
            | some ef => .text (lib.encode ef signal.buffer.content)
            | none => strdup data

def fmi2GetString (fmu : FmuInstanceData) (vrs : List UInt32) : List StringValue :=
  vrs.map (getString lib fmu)

def decodeString (fmu : FmuInstanceData) (k : String) (value : CString) : List UInt8 :=
  match fmu.decodeFunc.lookup k with
  | some df => lib.decode df value
  | none => value.bytes

def setString (fmu : FmuInstanceData) (vr : UInt32) (value : Option CString) : FmuInstanceData :=
  match value with
  | none => fmu
  | some value =>
      match fmu.binaryRx.lookup (vrIdx vr) with
      | none => { fmu with stringInput := fmu.stringInput.insert (vrIdx vr) value }
      | some p => fmu.modifyBinary p (lib.append (decodeString lib fmu (vrIdx vr) value))

def setStrings (fmu : FmuInstanceData) (request : List (UInt32 × Option CString)) :
    FmuInstanceData :=
  request.foldl (fun fmu entry => setString lib fmu entry.1 entry.2) fmu

def fmi2SetString (fmu : FmuInstanceData) (request : List (UInt32 × Option CString)) :
    FmuInstanceData :=
  setStrings lib (fmuDefaultSignalsReset fmu) request

end Calls

def fmi3SetString (fmu : FmuInstanceData) (request : List (UInt32 × Option CString)) :
    FmuInstanceData :=
  request.foldl (fun fmu entry =>
    match entry.2 with
    | none => fmu
    | some value => { fmu with stringInput := fmu.stringInput.insert (vrIdx entry.1) value }) fmu

/-- The step function of an FMU. It keeps the index and the storage of the binary signals
and may otherwise do anything. -/
structure FmuStep where
  run : FmuInstanceData → Double → Double → FmuInstanceData × Int
  binaryRx : ∀ fmu t h, (run fmu t h).1.binaryRx = fmu.binaryRx
  decodeFunc : ∀ fmu t h, (run fmu t h).1.decodeFunc = fmu.decodeFunc
  allocated : ∀ fmu t h, fmu.Allocated → (run fmu t h).1.Allocated
  valid : ∀ fmu t h p, fmu.getBinary p ≠ none → (run fmu t h).1.getBinary p ≠ none

def fmi2OK : Nat := 0

/-- The signals of the marshal list are scalars of the vectors. -/
def marshalToTable (fmu : FmuInstanceData) (mi : FmuVarTableMarshalItem) : FmuInstanceData :=
  { fmu with
    table := fmu.table.store64 mi.variableOffset ((fmu.getScalar mi.signal).getD 0) }

def marshalFromTable (fmu : FmuInstanceData) (mi : FmuVarTableMarshalItem) : FmuInstanceData :=
  fmu.setScalar mi.signal (fmu.table.load64 mi.variableOffset)

/-- The instance as it is offered to the step function. -/
def offered (fmu : FmuInstanceData) : FmuInstanceData :=
  let fmu := fmuDefaultSignalsReset fmu
  fmu.marshalList.foldl marshalToTable fmu

def fmi2DoStep (step : FmuStep) (fmu : FmuInstanceData)
    (currentCommunicationPoint communicationStepSize : Double) : FmuInstanceData × Nat :=
  let result := step.run (offered fmu) currentCommunicationPoint communicationStepSize
  let fmu := result.1.marshalList.foldl marshalFromTable result.1
  ({ fmu with signalsReset := false }, if result.2 = 0 then fmi2OK else fmi2Error)

inductive Call where
  | setString (request : List (UInt32 × Option CString))
  | getString (vrs : List UInt32)
  | doStep (step : FmuStep) (currentCommunicationPoint communicationStepSize : Double)

def Call.run (lib : CLib) (fmu : FmuInstanceData) : Call → FmuInstanceData
  | .setString request => fmi2SetString lib fmu request
  | .getString _ => fmu
  | .doStep step t h => (fmi2DoStep step fmu t h).1

/-- What a run offers to the step function, step by step. -/
def offers (lib : CLib) : FmuInstanceData → List Call → List FmuInstanceData
  | _, [] => []
  | fmu, .doStep step t h :: calls =>
      offered fmu :: offers lib ((Call.doStep step t h).run lib fmu) calls
  | fmu, call :: calls => offers lib (call.run lib fmu) calls

/-- The calls before each step, back to the step before; `period` are those made already. -/
def periodsFrom : List Call → List Call → List (List Call)
  | _, [] => []
  | period, .doStep _ _ _ :: calls => period :: periodsFrom [] calls
  | period, call :: calls => periodsFrom (period ++ [call]) calls

def periods : List Call → List (List Call) := periodsFrom []

theorem signalsReset_setString (lib : CLib) (fmu : FmuInstanceData) (vr : UInt32)
    (value : Option CString) : (setString lib fmu vr value).signalsReset = fmu.signalsReset := by
  unfold setString
  cases value with
  | none => rfl
  | some value =>
      cases fmu.binaryRx.lookup (vrIdx vr) with
      | none => rfl
      | some p => rfl

theorem foldl_marshalToTable (items : List FmuVarTableMarshalItem) (fmu : FmuInstanceData) :
    ∃ table, items.foldl marshalToTable fmu = { fmu with table } := by
  induction items generalizing fmu with
  | nil => exact ⟨fmu.table, rfl⟩
  | cons mi items ih =>
      obtain ⟨table, rest⟩ := ih (marshalToTable fmu mi)
      exact ⟨table, rest⟩

theorem getBinary_setScalar (fmu : FmuInstanceData) (p q : FmuSignalVectorIndex) (x : Double) :
    (fmu.setScalar p x).getBinary q = fmu.getBinary q := by
  simp only [FmuInstanceData.getBinary, FmuInstanceData.setScalar, List.getElem?_modify]
  cases fmu.data[q.sv]? with
  | none => rfl
  | some sv =>
      by_cases same : p.sv = q.sv
      · simp only [if_pos same, Option.bind_some]
        rfl
      · simp [if_neg same]

theorem FmuInstanceData.Allocated.setScalar {fmu : FmuInstanceData} (allocated : fmu.Allocated)
    (p : FmuSignalVectorIndex) (x : Double) : (fmu.setScalar p x).Allocated := by
  intro sv member
  obtain ⟨i, inside, rfl⟩ := List.mem_iff_getElem.mp member
  have inside_data : i < fmu.data.length := by simpa [FmuInstanceData.setScalar] using inside
  have before := allocated _ (List.getElem_mem inside_data)
  simp only [FmuInstanceData.setScalar, List.getElem_modify]
  split
  · exact before
  · exact before

/-- The parts of an instance that the binary exchange depends on, besides the values. -/
structure SameBinaryIndex (fmu gmu : FmuInstanceData) : Prop where
  rx : gmu.binaryRx = fmu.binaryRx
  decode : gmu.decodeFunc = fmu.decodeFunc
  allocated : fmu.Allocated → gmu.Allocated
  valid : ∀ p, fmu.getBinary p ≠ none → gmu.getBinary p ≠ none

theorem SameBinaryIndex.refl (fmu : FmuInstanceData) : SameBinaryIndex fmu fmu :=
  ⟨rfl, rfl, id, fun _ => id⟩

theorem SameBinaryIndex.trans {fmu gmu hmu : FmuInstanceData} (first : SameBinaryIndex fmu gmu)
    (second : SameBinaryIndex gmu hmu) : SameBinaryIndex fmu hmu :=
  ⟨second.rx.trans first.rx, second.decode.trans first.decode,
    second.allocated ∘ first.allocated, fun p => second.valid p ∘ first.valid p⟩

theorem getBinary_ne_none_of_map {fmu gmu : FmuInstanceData} {p : FmuSignalVectorIndex}
    {f : BinarySignal → BinarySignal} (mapped : gmu.getBinary p = (fmu.getBinary p).map f)
    (valid : fmu.getBinary p ≠ none) : gmu.getBinary p ≠ none := by
  rw [mapped]
  exact fun missing => valid (Option.map_eq_none_iff.mp missing)

theorem sameBinaryIndex_reset {fmu : FmuInstanceData} (allocated : fmu.Allocated) :
    SameBinaryIndex fmu (fmuDefaultSignalsReset fmu) := by
  cases flag : fmu.signalsReset with
  | true =>
      rw [reset_of_signalsReset flag]
      exact .refl fmu
  | false =>
      have reset := reset_of_not_signalsReset flag
      refine ⟨by rw [reset], by rw [reset], .reset, fun p => ?_⟩
      exact getBinary_ne_none_of_map (getBinary_reset allocated flag p)

theorem sameBinaryIndex_modifyBinary (fmu : FmuInstanceData) (p : FmuSignalVectorIndex)
    (f : BinarySignal → BinarySignal) : SameBinaryIndex fmu (fmu.modifyBinary p f) := by
  refine ⟨rfl, rfl, fun allocated => allocated.modifyBinary p f, fun q valid => ?_⟩
  by_cases same : p = q
  · subst same
    exact getBinary_ne_none_of_map (getBinary_modifyBinary_self fmu p f) valid
  · rw [getBinary_modifyBinary_ne fmu same]
    exact valid

theorem sameBinaryIndex_setString (lib : CLib) (fmu : FmuInstanceData) (vr : UInt32)
    (value : Option CString) : SameBinaryIndex fmu (setString lib fmu vr value) := by
  unfold setString
  cases value with
  | none => exact .refl fmu
  | some value =>
      cases fmu.binaryRx.lookup (vrIdx vr) with
      | none => exact ⟨rfl, rfl, id, fun _ => id⟩
      | some p => exact sameBinaryIndex_modifyBinary fmu p _

theorem sameBinaryIndex_marshalFromTable (items : List FmuVarTableMarshalItem)
    (fmu : FmuInstanceData) : SameBinaryIndex fmu (items.foldl marshalFromTable fmu) := by
  induction items generalizing fmu with
  | nil => exact .refl fmu
  | cons mi items ih =>
      refine .trans ?_ (ih (marshalFromTable fmu mi))
      refine ⟨rfl, rfl, fun allocated => allocated.setScalar _ _, fun p valid => ?_⟩
      rw [marshalFromTable, getBinary_setScalar]
      exact valid

theorem sameBinaryIndex_offered {fmu : FmuInstanceData} (allocated : fmu.Allocated) :
    SameBinaryIndex fmu (offered fmu) := by
  obtain ⟨table, marshalled⟩ := foldl_marshalToTable
    (fmuDefaultSignalsReset fmu).marshalList (fmuDefaultSignalsReset fmu)
  have reset := sameBinaryIndex_reset allocated
  rw [offered, marshalled]
  exact ⟨reset.rx, reset.decode, reset.allocated, reset.valid⟩

theorem sameBinaryIndex_doStep (step : FmuStep) {fmu : FmuInstanceData} (allocated : fmu.Allocated)
    (t h : Double) : SameBinaryIndex fmu (fmi2DoStep step fmu t h).1 := by
  have stepped : SameBinaryIndex (offered fmu) (step.run (offered fmu) t h).1 :=
    ⟨step.binaryRx .., step.decodeFunc .., step.allocated _ _ _, step.valid _ _ _⟩
  have marshalled := (sameBinaryIndex_offered allocated).trans
    (stepped.trans
      (sameBinaryIndex_marshalFromTable (step.run (offered fmu) t h).1.marshalList _))
  exact ⟨marshalled.rx, marshalled.decode, marshalled.allocated, marshalled.valid⟩

end DseFmi.Fmu
