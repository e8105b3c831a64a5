import DseFmi.Fmu.Binary

/-!
# Instances that differ in their logs

The versions of FMI log in different ways. The accessors and the step do the same with instances
that are the same but for the log and its settings.
-/

namespace DseFmi.Fmu

open DseFmi.Library

def SameButLog (fmu gmu : FmuInstanceData) : Prop :=
  ∃ logEnabled logCategories logged, fmu = { gmu with logEnabled, logCategories, logged }

section Relation

variable {fmu gmu hmu : FmuInstanceData}

theorem SameButLog.refl (fmu : FmuInstanceData) : SameButLog fmu fmu := ⟨_, _, _, rfl⟩

theorem SameButLog.of_eq (equal : fmu = gmu) : SameButLog fmu gmu := by
  rw [equal]
  exact .refl gmu

theorem SameButLog.symm (same : SameButLog fmu gmu) : SameButLog gmu fmu := by
  obtain ⟨_, _, _, rfl⟩ := same
  exact ⟨gmu.logEnabled, gmu.logCategories, gmu.logged, rfl⟩

theorem SameButLog.trans (first : SameButLog fmu gmu) (second : SameButLog gmu hmu) :
    SameButLog fmu hmu := by
  obtain ⟨_, _, _, rfl⟩ := second
  obtain ⟨_, _, _, rfl⟩ := first
  exact ⟨_, _, _, rfl⟩

theorem ErrorLog.sameButLog (errors : ErrorLog) (fmu : FmuInstanceData) (status : Nat)
    (category message : String) : SameButLog (errors.fmuLog fmu status category message) fmu := by
  obtain ⟨logged, log⟩ := errors.fmuLog_eq fmu status category message
  exact ⟨fmu.logEnabled, fmu.logCategories, logged, log⟩

theorem SameButLog.reset (same : SameButLog fmu gmu) :
    SameButLog (fmuDefaultSignalsReset fmu) (fmuDefaultSignalsReset gmu) := by
  obtain ⟨logEnabled, logCategories, logged, rfl⟩ := same
  refine ⟨logEnabled, logCategories, logged, ?_⟩
  unfold fmuDefaultSignalsReset
  dsimp only
  split <;> rfl

end Relation

section Reals

variable {fmu gmu : FmuInstanceData} (errors others : ErrorLog)

theorem SameButLog.fmuLog (same : SameButLog fmu gmu) (status other : Nat)
    (category message : String) :
    SameButLog (errors.fmuLog fmu status category message)
      (others.fmuLog gmu other category message) :=
  (errors.sameButLog ..).trans (same.trans (others.sameButLog ..).symm)

theorem SameButLog.directIndex (same : SameButLog fmu gmu) :
    fmu.directIndex = gmu.directIndex := by
  obtain ⟨_, _, _, rfl⟩ := same
  rfl

theorem SameButLog.getReal (same : SameButLog fmu gmu) (vr : UInt32) (value : Double) :
    SameButLog (getReal errors fmu vr value).1 (getReal others gmu vr value).1 ∧
      (getReal errors fmu vr value).2 = (getReal others gmu vr value).2 := by
  cases direct : gmu.directIndex with
  | some di =>
      rw [getReal_of_direct _ (same.directIndex.trans direct), getReal_of_direct _ direct,
        getDirect, getDirect]
      split
      · exact ⟨same.fmuLog errors others .., rfl⟩
      · obtain ⟨_, _, _, rfl⟩ := same
        exact ⟨⟨_, _, _, rfl⟩, rfl⟩
  | none =>
      rw [getReal_of_indexed _ (same.directIndex.trans direct), getReal_of_indexed _ direct,
        getIndexed, getIndexed]
      have pointer : fmu.scalarPointer (vrIdx vr) = gmu.scalarPointer (vrIdx vr) := by
        obtain ⟨_, _, _, rfl⟩ := same
        rfl
      rw [pointer]
      cases gmu.scalarPointer (vrIdx vr) with
      | none => exact ⟨same, rfl⟩
      | some signal =>
          obtain ⟨_, _, _, rfl⟩ := same
          exact ⟨⟨_, _, _, rfl⟩, rfl⟩

theorem SameButLog.setReal (same : SameButLog fmu gmu) (vr : UInt32) (value : Double) :
    SameButLog (setReal errors fmu vr value) (setReal others gmu vr value) := by
  cases direct : gmu.directIndex with
  | some di =>
      rw [setReal_of_direct _ (same.directIndex.trans direct), setReal_of_direct _ direct,
        setDirect, setDirect]
      split
      · exact same.fmuLog errors others ..
      · obtain ⟨_, _, _, rfl⟩ := same
        exact ⟨_, _, _, rfl⟩
  | none =>
      rw [setReal_of_indexed _ (same.directIndex.trans direct), setReal_of_indexed _ direct,
        setIndexed, setIndexed]
      have input : fmu.scalarInput = gmu.scalarInput := by
        obtain ⟨_, _, _, rfl⟩ := same
        rfl
      rw [input]
      cases gmu.scalarInput.lookup (vrIdx vr) with
      | none => exact same
      | some signal =>
          obtain ⟨_, _, _, rfl⟩ := same
          exact ⟨_, _, _, rfl⟩

theorem SameButLog.getReals (same : SameButLog fmu gmu) (request : Request) :
    SameButLog (getReals errors fmu request).1 (getReals others gmu request).1 ∧
      (getReals errors fmu request).2 = (getReals others gmu request).2 := by
  induction request generalizing fmu gmu with
  | nil => exact ⟨same, rfl⟩
  | cons entry request ih =>
      obtain ⟨vr, value⟩ := entry
      obtain ⟨first, got⟩ := same.getReal errors others vr value
      obtain ⟨rest, values⟩ := ih first
      rw [DseFmi.Fmu.getReals, DseFmi.Fmu.getReals]
      dsimp only
      exact ⟨rest, by rw [got, values]⟩

theorem SameButLog.setReals (same : SameButLog fmu gmu) (request : Request) :
    SameButLog (setReals errors fmu request) (setReals others gmu request) := by
  induction request generalizing fmu gmu with
  | nil => exact same
  | cons entry request ih => exact ih (same.setReal errors others entry.1 entry.2)

end Reals

section Calls

variable {fmu gmu : FmuInstanceData} (lib : CLib) {step : FmuStep}

theorem SameButLog.setString (same : SameButLog fmu gmu) (vr : UInt32) (value : Option CString) :
    SameButLog (setString lib fmu vr value) (setString lib gmu vr value) := by
  obtain ⟨logEnabled, logCategories, logged, rfl⟩ := same
  refine ⟨logEnabled, logCategories, logged, ?_⟩
  cases value with
  | none => rfl
  | some s =>
      rw [DseFmi.Fmu.setString, DseFmi.Fmu.setString]
      cases gmu.binaryRx.lookup (vrIdx vr) with
      | none => rfl
      | some p => rfl

theorem SameButLog.fmi2SetString (same : SameButLog fmu gmu)
    (request : List (UInt32 × Option CString)) :
    SameButLog (fmi2SetString lib fmu request) (fmi2SetString lib gmu request) := by
  have strings (fmu gmu : FmuInstanceData) (same : SameButLog fmu gmu) :
      SameButLog (setStrings lib fmu request) (setStrings lib gmu request) := by
    induction request generalizing fmu gmu with
    | nil => exact same
    | cons entry request ih => exact ih _ _ (same.setString lib entry.1 entry.2)
  exact strings _ _ same.reset

variable {lib} in
theorem SameButLog.fmi2GetString (same : SameButLog fmu gmu) (vrs : List UInt32) :
    fmi2GetString lib fmu vrs = fmi2GetString lib gmu vrs := by
  obtain ⟨_, _, _, rfl⟩ := same
  rfl

theorem SameButLog.marshal {f : FmuInstanceData → FmuVarTableMarshalItem → FmuInstanceData}
    (each : ∀ fmu gmu, SameButLog fmu gmu → ∀ mi, SameButLog (f fmu mi) (f gmu mi))
    (same : SameButLog fmu gmu) :
    SameButLog (fmu.marshalList.foldl f fmu) (gmu.marshalList.foldl f gmu) := by
  have items : fmu.marshalList = gmu.marshalList := by
    obtain ⟨_, _, _, rfl⟩ := same
    rfl
  rw [items]
  clear items
  induction gmu.marshalList generalizing fmu gmu with
  | nil => exact same
  | cons mi marshalList ih => exact ih (each _ _ same mi)

theorem SameButLog.offered (same : SameButLog fmu gmu) :
    SameButLog (offered fmu) (offered gmu) := by
  apply same.reset.marshal
  rintro _ _ ⟨_, _, _, rfl⟩ mi
  exact ⟨_, _, _, rfl⟩

/-- The step function does not look at the log. -/
def FmuStep.IgnoresLog (step : FmuStep) : Prop :=
  ∀ fmu gmu t h, SameButLog fmu gmu →
    SameButLog (step.run fmu t h).1 (step.run gmu t h).1 ∧
      (step.run fmu t h).2 = (step.run gmu t h).2

theorem SameButLog.fmi2DoStep (same : SameButLog fmu gmu) (ignores : step.IgnoresLog)
    (t h : Double) :
    SameButLog (fmi2DoStep step fmu t h).1 (fmi2DoStep step gmu t h).1 ∧
      (fmi2DoStep step fmu t h).2 = (fmi2DoStep step gmu t h).2 := by
  obtain ⟨stepped, status⟩ := ignores _ _ t h same.offered
  have marshalled : SameButLog
      ((step.run (DseFmi.Fmu.offered fmu) t h).1.marshalList.foldl marshalFromTable
        (step.run (DseFmi.Fmu.offered fmu) t h).1)
      ((step.run (DseFmi.Fmu.offered gmu) t h).1.marshalList.foldl marshalFromTable
        (step.run (DseFmi.Fmu.offered gmu) t h).1) := by
    apply stepped.marshal
    rintro _ _ ⟨_, _, _, rfl⟩ mi
    exact ⟨_, _, _, rfl⟩
  rw [DseFmi.Fmu.fmi2DoStep, DseFmi.Fmu.fmi2DoStep]
  dsimp only
  rw [status]
  refine ⟨?_, rfl⟩
  obtain ⟨_, _, _, same⟩ := marshalled
  rw [same]
  exact ⟨_, _, _, rfl⟩

end Calls

end DseFmi.Fmu
