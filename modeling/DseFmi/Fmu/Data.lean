import Mathlib.Algebra.GroupWithZero.Nat
import Mathlib.Data.List.AList
import DseFmi.Library.Memory

/-!
# The FMU instance

The data of an FMU instance: the signal vectors which store its variables and the hash
maps which lead from value references to them. A pointer into a signal vector is the
position of the vector together with the position of the entry.
-/

namespace DseFmi.Fmu

open DseFmi.Library

abbrev Double := BitVec 64

abbrev HashMap (α : Type) := AList fun _ : String => α

structure FmuSignalVectorIndex where
  sv : Nat
  vi : Nat
  deriving DecidableEq, Repr

structure Buffer where
  binary : Option (List UInt8)
  length : Nat
  length_le : length ≤ (binary.getD []).length
  deriving DecidableEq, Repr

def Buffer.null : Buffer := ⟨none, 0, Nat.zero_le _⟩

def Buffer.content (b : Buffer) : List UInt8 := (b.binary.getD []).take b.length

/-- The buffer stays allocated when its length is set to 0. -/
def Buffer.reset (b : Buffer) : Buffer := ⟨b.binary, 0, Nat.zero_le _⟩

@[simp] theorem Buffer.content_null : Buffer.null.content = [] := rfl

@[simp] theorem Buffer.content_reset (b : Buffer) : b.reset.content = [] := by
  simp [content, reset]

@[simp] theorem Buffer.length_content (b : Buffer) : b.content.length = b.length := by
  simp [content, b.length_le]

structure CString where
  bytes : List UInt8
  no_nul : 0 ∉ bytes
  deriving DecidableEq, Repr

/-- An opened codec reads and writes the signal through a stream with a position. -/
structure BinarySignal where
  buffer : Buffer
  mimeType : Option String
  ncodec : Option Nat
  deriving DecidableEq, Repr

/-- A vector stores scalars or binaries; the other storage is `NULL`. -/
structure FmuSignalVector where
  count : Nat
  signal : List (Option String)
  scalar : Option (List Double)
  binary : Option (List BinarySignal)
  deriving DecidableEq, Repr

inductive EncodeFunc where
  | dseAscii85Encode
  deriving DecidableEq, Repr

inductive DecodeFunc where
  | dseAscii85Decode
  deriving DecidableEq, Repr

/-- Storage of a variable table that mirrors a scalar signal. -/
structure FmuVarTableMarshalItem where
  variableOffset : Nat
  signal : FmuSignalVectorIndex
  deriving DecidableEq, Repr

/-- The memory from the base of the map, and the offsets it was accessed at so far. -/
structure DirectIndex where
  map : Memory
  size : UInt32
  accessed : List Nat

structure LogMessage where
  status : Nat
  category : String
  message : String
  deriving DecidableEq, Repr

structure FmuInstanceData where
  logEnabled : Bool
  logCategories : BitVec 16
  logged : List LogMessage
  scalarInput : HashMap FmuSignalVectorIndex
  scalarOutput : HashMap FmuSignalVectorIndex
  stringInput : HashMap CString
  binaryRx : HashMap FmuSignalVectorIndex
  binaryTx : HashMap FmuSignalVectorIndex
  encodeFunc : HashMap EncodeFunc
  decodeFunc : HashMap DecodeFunc
  signalsReset : Bool
  data : List FmuSignalVector
  table : Memory
  marshalList : List FmuVarTableMarshalItem
  directIndex : Option DirectIndex

/-- The instance as `calloc` and the initialisation of the hash maps leave it. -/
def FmuInstanceData.null : FmuInstanceData where
  logEnabled := false
  logCategories := 0
  logged := []
  scalarInput := ∅
  scalarOutput := ∅
  stringInput := ∅
  binaryRx := ∅
  binaryTx := ∅
  encodeFunc := ∅
  decodeFunc := ∅
  signalsReset := false
  data := []
  table := fun _ => 0
  marshalList := []
  directIndex := none

def fmiLogCategoryAll : BitVec 16 := 1 <<< 5

def fmiLogCategoryMap : List (String × BitVec 16) :=
  [("Trace", 1 <<< 0), ("Debug", 1 <<< 1), ("Info", 1 <<< 2), ("Error", 1 <<< 3),
    ("Fatal", 1 <<< 4), ("All", fmiLogCategoryAll)]

def fmuLog (fmu : FmuInstanceData) (status : Nat) (category message : String) :
    FmuInstanceData :=
  let flag := ((fmiLogCategoryMap.find? fun entry => entry.1 = category).map Prod.snd).getD 0
  if fmu.logEnabled = false then fmu
  else if fmu.logCategories = 0 then fmu
  else if fmu.logCategories &&& fmiLogCategoryAll = 0 ∧ fmu.logCategories &&& flag = 0 then fmu
  else { fmu with logged := fmu.logged ++ [⟨status, category, message⟩] }

theorem fmuLog_eq (fmu : FmuInstanceData) (status : Nat) (category message : String) :
    ∃ logged, fmuLog fmu status category message = { fmu with logged } := by
  unfold fmuLog
  dsimp only
  split
  · exact ⟨_, rfl⟩
  · split
    · exact ⟨_, rfl⟩
    · split <;> exact ⟨_, rfl⟩

def fmi3FmuLog (fmu : FmuInstanceData) (status : Nat) (category message : String) :
    FmuInstanceData :=
  if fmu.logEnabled = false then fmu
  else { fmu with logged := fmu.logged ++ [⟨status, category, message⟩] }

theorem fmi3FmuLog_eq (fmu : FmuInstanceData) (status : Nat) (category message : String) :
    ∃ logged, fmi3FmuLog fmu status category message = { fmu with logged } := by
  unfold fmi3FmuLog
  split <;> exact ⟨_, rfl⟩

structure ErrorLog where
  error : Nat
  fmuLog : FmuInstanceData → Nat → String → String → FmuInstanceData
  fmuLog_eq : ∀ fmu status category message,
    ∃ logged, fmuLog fmu status category message = { fmu with logged }

def FmuSignalVector.getScalar (sv : FmuSignalVector) (i : Nat) : Option Double :=
  sv.scalar.bind fun scalar => scalar[i]?

def FmuSignalVector.setScalar (sv : FmuSignalVector) (i : Nat) (x : Double) : FmuSignalVector :=
  { sv with scalar := sv.scalar.map fun scalar => scalar.set i x }

def FmuInstanceData.getScalar (fmu : FmuInstanceData) (p : FmuSignalVectorIndex) :
    Option Double :=
  fmu.data[p.sv]?.bind fun sv => sv.getScalar p.vi

def FmuInstanceData.setScalar (fmu : FmuInstanceData) (p : FmuSignalVectorIndex) (x : Double) :
    FmuInstanceData :=
  { fmu with data := fmu.data.modify p.sv fun sv => sv.setScalar p.vi x }

theorem getScalar_setScalar_self {fmu : FmuInstanceData} {p : FmuSignalVectorIndex}
    (valid : fmu.getScalar p ≠ none) (x : Double) : (fmu.setScalar p x).getScalar p = some x := by
  obtain ⟨old, found⟩ := Option.ne_none_iff_exists'.mp valid
  obtain ⟨sv, hsv, found⟩ := Option.bind_eq_some_iff.mp found
  obtain ⟨scalar, hscalar, found⟩ := Option.bind_eq_some_iff.mp found
  obtain ⟨inside, _⟩ := List.getElem?_eq_some_iff.mp found
  simp [FmuInstanceData.getScalar, FmuInstanceData.setScalar, FmuSignalVector.getScalar,
    FmuSignalVector.setScalar, hsv, hscalar, inside]

theorem getScalar_setScalar_ne {fmu : FmuInstanceData} {p q : FmuSignalVectorIndex}
    (different : p ≠ q) (x : Double) : (fmu.setScalar p x).getScalar q = fmu.getScalar q := by
  by_cases same : p.sv = q.sv
  · have other : p.vi ≠ q.vi := fun equal => different (by cases p; cases q; simp_all)
    cases hsv : fmu.data[q.sv]? with
    | none => simp [FmuInstanceData.getScalar, FmuInstanceData.setScalar, same, hsv]
    | some sv =>
        cases hscalar : sv.scalar <;>
          simp [FmuInstanceData.getScalar, FmuInstanceData.setScalar, FmuSignalVector.getScalar,
            FmuSignalVector.setScalar, same, hsv, hscalar, List.getElem?_set_ne other]
  · simp [FmuInstanceData.getScalar, FmuInstanceData.setScalar, List.getElem?_modify_ne _ _ same]

end DseFmi.Fmu
