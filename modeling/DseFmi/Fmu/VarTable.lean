import DseFmi.Fmu.RoundTrip
import DseFmi.Fmu.Binary

/-!
# The variable table

An FMU registers offsets of its own table for the variables it uses. The list of the
registrations becomes an array with a terminator whose pointers are `NULL`; the loop which
corrects the offsets ends at the signal of the terminator, the loops of a step end at its
variable.
-/

namespace DseFmi.Fmu

open DseFmi.Library

structure VarTableItem where
  variableAddress : Nat
  signal : Option FmuSignalVectorIndex
  deriving DecidableEq, Repr

def VarTableItem.null : VarTableItem := ⟨0, none⟩

structure VarTable where
  marshalList : List VarTableItem
  varList : List VarTableItem
  deriving DecidableEq, Repr

def VarTable.null : VarTable := ⟨[], []⟩

/-- The length of a key of the collections library; ten digits and a terminator fit. -/
structure KeyLen where
  hashlistKeyLen : Nat
  room : 11 ≤ hashlistKeyLen

structure TablePointer where
  address : Nat
  not_null : address ≠ 0

/-- The signal of a variable, by the key of its reference. -/
def lookupSignal (fmu : FmuInstanceData) (input : Bool) (key : String) :
    Option FmuSignalVectorIndex :=
  if input then fmu.scalarInput.lookup key else fmu.scalarOutput.lookup key

def fmuRegisterVar (keys : KeyLen) (fmu : FmuInstanceData) (vt : VarTable) (vref : UInt32)
    (input : Bool) (offset : Nat) : VarTable × Double :=
  match lookupSignal fmu input (printInt keys.hashlistKeyLen vref) with
  | none => (vt, 0)
  | some signal => ({ vt with varList := vt.varList ++ [⟨offset, some signal⟩] }, 0)

def hashlistNtl (items : List VarTableItem) : List VarTableItem := items ++ [.null]

def correctVariables (table : Nat) : List VarTableItem → List VarTableItem
  | [] => []
  | mi :: rest =>
      if mi.signal.isSome then
        { mi with variableAddress := table + mi.variableAddress } :: correctVariables table rest
      else mi :: rest

def fmuRegisterVarTable (vt : VarTable) (table : TablePointer) : VarTable :=
  { marshalList := correctVariables table.address (hashlistNtl vt.varList)
    varList := [] }

/-- The entries the loops of a step go through. -/
def marshalledItems : List VarTableItem → List FmuVarTableMarshalItem
  | [] => []
  | mi :: rest =>
      if mi.variableAddress = 0 then []
      else
        match mi.signal with
        | none => []
        | some signal => ⟨mi.variableAddress, signal⟩ :: marshalledItems rest

structure Registration where
  vref : UInt32
  input : Bool
  offset : Nat
  deriving DecidableEq, Repr

/-- The instance after the registration of variables and of the table. -/
def registerTable (keys : KeyLen) (table : TablePointer) (fmu : FmuInstanceData)
    (calls : List Registration) : FmuInstanceData :=
  let vt := calls.foldl
    (fun vt call => (fmuRegisterVar keys fmu vt call.vref call.input call.offset).1) .null
  { fmu with marshalList := marshalledItems (fmuRegisterVarTable vt table).marshalList }

def Registration.signal (fmu : FmuInstanceData) (r : Registration) :
    Option FmuSignalVectorIndex :=
  lookupSignal fmu r.input (vrIdx r.vref)

structure Registrations (fmu : FmuInstanceData) where
  list : List Registration
  nonempty : list ≠ []
  small : ∀ r ∈ list, r.vref.toNat < 2 ^ 31
  successful : ∀ r ∈ list, (r.signal fmu).isSome
  signals : (list.map fun r => r.signal fmu).Nodup
  offsets : list.Pairwise fun r s => Disjoint8 r.offset s.offset

def Registration.item (fmu : FmuInstanceData) (table : TablePointer) (r : Registration) :
    Option FmuVarTableMarshalItem :=
  (r.signal fmu).map fun signal => ⟨table.address + r.offset, signal⟩

section Register

variable {keys : KeyLen} {table : TablePointer} {fmu : FmuInstanceData}

theorem fmuRegisterVar_eq {r : Registration} (small : r.vref.toNat < 2 ^ 31)
    {signal : FmuSignalVectorIndex} (found : r.signal fmu = some signal) (vt : VarTable) :
    fmuRegisterVar keys fmu vt r.vref r.input r.offset =
      ({ vt with varList := vt.varList ++ [⟨r.offset, some signal⟩] }, 0) := by
  have key : printInt keys.hashlistKeyLen r.vref = vrIdx r.vref :=
    (printInt_of_lt keys.room small).trans (vrIdx_of_lt small).symm
  have looked : lookupSignal fmu r.input (vrIdx r.vref) = some signal := found
  simp only [fmuRegisterVar, key, looked]

theorem foldl_fmuRegisterVar {calls : List Registration}
    (small : ∀ r ∈ calls, r.vref.toNat < 2 ^ 31)
    (successful : ∀ r ∈ calls, (r.signal fmu).isSome) (vt : VarTable) :
    calls.foldl (fun vt call => (fmuRegisterVar keys fmu vt call.vref call.input call.offset).1)
      vt = { vt with varList := vt.varList ++ calls.map fun r => ⟨r.offset, r.signal fmu⟩ } := by
  induction calls generalizing vt with
  | nil => simp
  | cons r calls ih =>
      have ⟨signal, found⟩ := Option.isSome_iff_exists.mp (successful r List.mem_cons_self)
      rw [List.foldl_cons, fmuRegisterVar_eq (small r List.mem_cons_self) found,
        ih (fun s later => small s (List.mem_cons_of_mem _ later))
          (fun s later => successful s (List.mem_cons_of_mem _ later))]
      simp [found]

theorem correctVariables_ntl {items : List VarTableItem}
    (signals : ∀ mi ∈ items, mi.signal.isSome) (base : Nat) :
    correctVariables base (hashlistNtl items) =
      hashlistNtl (items.map fun mi =>
        { mi with variableAddress := base + mi.variableAddress }) := by
  induction items with
  | nil => simp [hashlistNtl, correctVariables, VarTableItem.null]
  | cons mi items ih =>
      have here := signals mi List.mem_cons_self
      have rest := ih fun mj later => signals mj (List.mem_cons_of_mem _ later)
      simp only [hashlistNtl, List.cons_append, List.map_cons] at rest ⊢
      rw [correctVariables, if_pos here, rest]

/-- The loops of a step end at the terminator and not before, whatever the offset is. -/
theorem marshalledItems_ntl {items : List VarTableItem}
    (entries : ∀ mi ∈ items, mi.variableAddress ≠ 0 ∧ mi.signal.isSome) :
    marshalledItems (hashlistNtl items) =
      items.filterMap fun mi => mi.signal.map fun signal => ⟨mi.variableAddress, signal⟩ := by
  induction items with
  | nil => simp [hashlistNtl, marshalledItems, VarTableItem.null]
  | cons mi items ih =>
      have ⟨address, isSome⟩ := entries mi List.mem_cons_self
      have ⟨signal, found⟩ := Option.isSome_iff_exists.mp isSome
      have rest := ih fun mj later => entries mj (List.mem_cons_of_mem _ later)
      simp only [hashlistNtl, List.cons_append] at rest ⊢
      simp [marshalledItems, address, found, rest]

/-- The marshal list holds the registrations in the order of the calls. -/
theorem registerTable_eq (keys : KeyLen) (table : TablePointer) (regs : Registrations fmu) :
    registerTable keys table fmu regs.list =
      { fmu with marshalList := regs.list.filterMap (Registration.item fmu table) } := by
  have signals : ∀ mi ∈ regs.list.map fun r => VarTableItem.mk r.offset (r.signal fmu),
      mi.signal.isSome := by
    intro mi member
    obtain ⟨r, registered, rfl⟩ := List.mem_map.mp member
    exact regs.successful r registered
  have entries : ∀ mi ∈ (regs.list.map fun r => VarTableItem.mk r.offset (r.signal fmu)).map
      (fun mi => { mi with variableAddress := table.address + mi.variableAddress }),
      mi.variableAddress ≠ 0 ∧ mi.signal.isSome := by
    intro mi member
    obtain ⟨mj, listed, rfl⟩ := List.mem_map.mp member
    have not_null := table.not_null
    exact ⟨by simp; omega, signals mj listed⟩
  unfold registerTable fmuRegisterVarTable
  dsimp only
  rw [foldl_fmuRegisterVar regs.small regs.successful]
  simp only [VarTable.null, List.nil_append]
  rw [correctVariables_ntl signals, marshalledItems_ntl entries]
  simp only [List.filterMap_map, Function.comp_def]
  rfl

end Register

section Items

variable {fmu : FmuInstanceData} (table : TablePointer) (regs : Registrations fmu)

theorem Registrations.mem_items {mi : FmuVarTableMarshalItem} :
    mi ∈ regs.list.filterMap (Registration.item fmu table) ↔
      ∃ r ∈ regs.list, r.signal fmu = some mi.signal ∧
        mi.variableOffset = table.address + r.offset := by
  simp only [List.mem_filterMap, Registration.item, Option.map_eq_some_iff]
  constructor
  · rintro ⟨r, registered, signal, found, rfl⟩
    exact ⟨r, registered, found, rfl⟩
  · rintro ⟨r, registered, found, offset⟩
    refine ⟨r, registered, mi.signal, found, ?_⟩
    rw [← offset]

theorem Registrations.items_signals :
    ((regs.list.filterMap (Registration.item fmu table)).map
      FmuVarTableMarshalItem.signal).Nodup := by
  have same : (regs.list.filterMap (Registration.item fmu table)).map
      FmuVarTableMarshalItem.signal = (regs.list.map fun r => r.signal fmu).filterMap id := by
    simp only [List.map_filterMap, List.filterMap_map, Registration.item, Option.map_map,
      Function.comp_def, Option.map_id', id]
  rw [same]
  refine regs.signals.filterMap fun first second signal hf hs => ?_
  exact (Option.mem_def.mp hf).trans (Option.mem_def.mp hs).symm

theorem Registrations.items_offsets :
    (regs.list.filterMap (Registration.item fmu table)).Pairwise fun mi mj =>
      Disjoint8 mi.variableOffset mj.variableOffset := by
  rw [List.pairwise_filterMap]
  refine regs.offsets.imp fun {r s} disjoint mi found mj other => ?_
  obtain ⟨_, _, rfl⟩ := Option.map_eq_some_iff.mp found
  obtain ⟨_, _, rfl⟩ := Option.map_eq_some_iff.mp other
  unfold Disjoint8 at disjoint ⊢
  dsimp only
  omega

end Items

end DseFmi.Fmu
