import DseFmi.Importer.Loopback
import DseFmi.Library.InPlace

/-!
# The array accesses of the co-simulation loops

The arrays of a model description have as many elements as there are binary variables of a
direction. The loops are repeated here with every access checked against the array; inside of
the arrays they do what the loops of before do.
-/

namespace DseFmi.Importer

open DseFmi.Fmu (CLib CString)
open DseFmi.Library

structure BinaryArrays where
  rxCount : Nat
  txCount : Nat
  rxBinaryInfo : Option (List BinaryData)
  txBinaryInfo : Option (List BinaryData)

/-- An allocation of nothing is `NULL` or an empty array. -/
def allocInfo (emptyIsNull : Bool) (vars : List BinaryVariable) : Option (List BinaryData) :=
  if vars.isEmpty && emptyIsNull then none else some (vars.map BinaryVariable.info)

def allocVar (emptyIsNull : Bool) (desc : ModelDescription) : BinaryArrays where
  rxCount := desc.rxBinary.length
  txCount := desc.txBinary.length
  rxBinaryInfo := allocInfo emptyIsNull desc.rxBinary
  txBinaryInfo := allocInfo emptyIsNull desc.txBinary

abbrev Values := List NetworkSignal × List (Option CString)

section Loopback

variable (lib : CLib) (ncodec : NCodec) (signalBusEnabled : Bool) (arrays : BinaryArrays)

def pushAt (s : Values) (i : Nat) : Option Values :=
  match arrays.txBinaryInfo with
  | none => some s
  | some info => do
      let data ← info[i]?
      match data.mimeType with
      | none => some s
      | some mimeType => do
          let val ← s.2[i]?
          match val with
          | none => some s
          | some text =>
              let network := networkPush ncodec signalBusEnabled s.1 oneNetwork mimeType
                (lib.dseAscii85Decode text)
              some (network, s.2.set i none)

/-- The first description is looked at whatever the count is. -/
def injectFirst (step : Nat) (network : List NetworkSignal) : Option (List NetworkSignal) :=
  match arrays.txBinaryInfo with
  | none => some network
  | some info => do
      let data ← info[0]?
      match data.mimeType with
      | none => some network
      | some mimeType =>
          if data.type = some "frame" then
            some (networkInjectFrame ncodec network oneNetwork mimeType (42 + step * 10)
              (frameText step))
          else some network

def pullAt (s : Values) (i : Nat) : Option Values :=
  match arrays.rxBinaryInfo with
  | none => some s
  | some info => do
      let data ← info[i]?
      match data.mimeType with
      | none => some s
      | some mimeType => do
          let (network, pulled) := networkPull ncodec s.1 oneNetwork mimeType
          let _ ← s.2[i]?
          some (network, s.2.set i (some (lib.dseAscii85Encode pulled)))

def checkedLoopback {F D : Type} (step : Nat) (s : ImporterState F D) :
    Option (ImporterState F D) := do
  let network := networkTruncate s.network
  let (network, valTx) ← (List.range arrays.txCount).foldlM
    (pushAt lib ncodec signalBusEnabled arrays) (network, s.valTxBinary)
  let network ← injectFirst ncodec arrays step network
  let (network, valRx) ← (List.range arrays.rxCount).foldlM
    (pullAt lib ncodec arrays) (network, s.valRxBinary)
  return { s with network, valTxBinary := valTx, valRxBinary := valRx }

end Loopback

def releaseAt (s : Unit × List (Option CString)) (i : Nat) :
    Option (Unit × List (Option CString)) := do
  let val ← s.2[i]?
  match val with
  | none => some s
  | some _ => some ((), s.2.set i none)

def duplicateAt (s : Unit × List (Option CString)) (i : Nat) :
    Option (Unit × List (Option CString)) := do
  let val ← s.2[i]?
  match val with
  | none => some s
  | some text => some ((), s.2.set i (some text))

section Steps

variable {F D : Type} [LinearOrder D] [Add D] (numbers : Numbers D) (lib : CLib)
  (ncodec : NCodec) (signalBusEnabled : Bool) (desc : ModelDescription) (arrays : BinaryArrays)
  (stepSize : D)

def checkedFmu2Step (fmi : Fmi2Functions F D) (step : Nat) (s : ImporterState F D) :
    Option (ImporterState F D × Exchange) := do
  let s ← checkedLoopback lib ncodec signalBusEnabled arrays step s
  let fmu := fmi.setString s.fmu desc.vrRxBinary s.valRxBinary
  let (_, released) ← (List.range arrays.rxCount).foldlM releaseAt ((), s.valRxBinary)
  let fmu := fmi.setReal fmu desc.vrRxReal s.valRxReal
  let fmu := (fmi.doStep fmu s.modelTime stepSize).1
  let (fmu, valTxReal) := fmi.getReal fmu desc.vrTxReal s.valTxReal
  let (fmu, valTxBinary) := fmi.getString fmu desc.vrTxBinary s.valTxBinary
  let (_, valTxBinary) ← (List.range arrays.txCount).foldlM duplicateAt ((), valTxBinary)
  let modelTime := s.modelTime + stepSize
  let next := { s with fmu, valTxReal, valTxBinary, modelTime, valRxBinary := released }
  return (applySamplesAt numbers next modelTime, ⟨[], s.valRxBinary, valTxBinary⟩)

def checkedFmu3Step (fmi : Fmi3Functions F D) (step : Nat) (s : ImporterState F D) :
    Option (ImporterState F D × Exchange) := do
  let s ← checkedLoopback lib ncodec signalBusEnabled arrays step s
  let (fmu, sizes) := fmi.setBinary s.fmu desc.vrRxBinary s.valSizeRxBinary s.valRxBinary
  let (_, released) ← (List.range arrays.rxCount).foldlM releaseAt ((), s.valRxBinary)
  let fmu := fmi.setFloat64 fmu desc.vrRxReal s.valRxReal
  let fmu := (fmi.doStep fmu s.modelTime stepSize).1
  let (fmu, valTxReal) := fmi.getFloat64 fmu desc.vrTxReal s.valTxReal
  let (fmu, valSizeTxBinary, valTxBinary) :=
    fmi.getBinary fmu desc.vrTxBinary s.valSizeTxBinary s.valTxBinary
  let (_, valTxBinary) ← (List.range arrays.txCount).foldlM duplicateAt ((), valTxBinary)
  let modelTime := s.modelTime + stepSize
  let next := { s with
    fmu, valTxReal, valTxBinary, valSizeTxBinary, modelTime
    valSizeRxBinary := sizes
    valRxBinary := released }
  return (applySamplesAt numbers next modelTime,
    ⟨s.valSizeRxBinary, s.valRxBinary, valTxBinary⟩)

end Steps

/-- The exchanges of all steps, `none` as soon as an access is outside. -/
def checkedSteps {S E : Type} (body : Nat → S → Option (S × E)) : Nat → Nat → S → Option (List E)
  | 0, _, _ => some []
  | steps + 1, step, s => do
      let (next, exchange) ← body step s
      let later ← checkedSteps body steps (step + 1) next
      return exchange :: later

section Runs

variable {F D : Type} [LinearOrder D] [Add D] (numbers : Numbers D) (lib : CLib)
  (ncodec : NCodec) (signalBusEnabled emptyIsNull : Bool) (desc : ModelDescription)
  (stepSize : D) (steps : Nat) (start : ImporterState F D)

def checkedFmu2Cosim (fmi : Fmi2Functions F D) : Option (List Exchange) :=
  checkedSteps (checkedFmu2Step numbers lib ncodec signalBusEnabled desc
    (allocVar emptyIsNull desc) stepSize fmi) steps 0 start

def checkedFmu3Cosim (fmi : Fmi3Functions F D) : Option (List Exchange) :=
  checkedSteps (checkedFmu3Step numbers lib ncodec signalBusEnabled desc
    (allocVar emptyIsNull desc) stepSize fmi) steps 0 start

end Runs

section Inside

variable (lib : CLib) (ncodec : NCodec) (signalBusEnabled : Bool)

def pushStep (network : List NetworkSignal) (v : BinaryVariable) (val : Option CString) :
    List NetworkSignal × Option CString :=
  match v.info.mimeType, val with
  | some mimeType, some text =>
      (networkPush ncodec signalBusEnabled network oneNetwork mimeType
        (lib.dseAscii85Decode text), none)
  | _, _ => (network, val)

def pullStep (network : List NetworkSignal) (v : BinaryVariable) (val : Option CString) :
    List NetworkSignal × Option CString :=
  match v.info.mimeType with
  | some mimeType =>
      let (network, data) := networkPull ncodec network oneNetwork mimeType
      (network, some (lib.dseAscii85Encode data))
  | none => (network, val)

theorem pushBinary_eq_accumulate (network : List NetworkSignal)
    (entries : List (BinaryVariable × Option CString)) :
    pushBinary lib ncodec signalBusEnabled network entries =
      accumulate (pushStep lib ncodec signalBusEnabled) network entries := by
  induction entries generalizing network with
  | nil => rfl
  | cons entry entries ih =>
      obtain ⟨v, val⟩ := entry
      cases mime : v.info.mimeType with
      | none => simp [pushBinary, accumulate, pushStep, mime, ih]
      | some mimeType =>
          cases val with
          | none => simp [pushBinary, accumulate, pushStep, mime, ih]
          | some text => simp [pushBinary, accumulate, pushStep, mime, ih]

theorem pullBinary_eq_accumulate (network : List NetworkSignal)
    (entries : List (BinaryVariable × Option CString)) :
    pullBinary lib ncodec network entries =
      accumulate (pullStep lib ncodec) network entries := by
  induction entries generalizing network with
  | nil => rfl
  | cons entry entries ih =>
      obtain ⟨v, val⟩ := entry
      cases mime : v.info.mimeType with
      | none => simp [pullBinary, accumulate, pullStep, mime, ih]
      | some mimeType => simp [pullBinary, accumulate, pullStep, mime, ih]

variable {arrays : BinaryArrays} {vars : List BinaryVariable}

theorem pushAt_doesStep (info : arrays.txBinaryInfo = some (vars.map BinaryVariable.info)) :
    DoesStep (pushAt lib ncodec signalBusEnabled arrays)
      (pushStep lib ncodec signalBusEnabled) vars := by
  intro network done v val rest at_v
  cases mime : v.info.mimeType with
  | none => simp [pushAt, info, at_v, pushStep, mime]
  | some mimeType =>
      cases val with
      | none => simp [pushAt, info, at_v, pushStep, mime]
      | some text => simp [pushAt, info, at_v, pushStep, mime]

theorem pullAt_doesStep (info : arrays.rxBinaryInfo = some (vars.map BinaryVariable.info)) :
    DoesStep (pullAt lib ncodec arrays) (pullStep lib ncodec) vars := by
  intro network done v val rest at_v
  cases mime : v.info.mimeType with
  | none => simp [pullAt, info, at_v, pullStep, mime]
  | some mimeType => simp [pullAt, info, at_v, pullStep, mime]

theorem releaseAt_doesStep (vars : List BinaryVariable) :
    DoesStep releaseAt (fun _ _ _ => ((), none)) vars := by
  intro s done v val rest at_v
  cases val with
  | none => simp [releaseAt]
  | some text => simp [releaseAt]

theorem duplicateAt_doesStep (vars : List BinaryVariable) :
    DoesStep duplicateAt (fun _ _ val => ((), val)) vars := by
  intro s done v val rest at_v
  cases val with
  | none => simp [duplicateAt]
  | some text => simp [duplicateAt]

theorem foldlM_of_allocInfo {emptyIsNull : Bool} {info : Option (List BinaryData)}
    (allocated : info = allocInfo emptyIsNull vars) {round : Values → Nat → Option Values}
    {step : List NetworkSignal → BinaryVariable → Option CString →
      List NetworkSignal × Option CString}
    (does : info = some (vars.map BinaryVariable.info) → DoesStep round step vars)
    (network : List NetworkSignal) {vals : List (Option CString)}
    (same : vals.length = vars.length) :
    (List.range vars.length).foldlM round (network, vals) =
      some (accumulate step network (vars.zip vals)) := by
  cases empty : vars.isEmpty && emptyIsNull with
  | true =>
      obtain rfl : vars = [] := by
        simp only [Bool.and_eq_true, List.isEmpty_iff] at empty
        exact empty.1
      obtain rfl : vals = [] := List.length_eq_zero_iff.mp same
      rfl
  | false =>
      apply (does ?_).foldlM_range same.symm
      rw [allocated, allocInfo, empty]
      rfl

end Inside

section Steps

variable {F D : Type} {lib : CLib} {ncodec : NCodec} {signalBusEnabled emptyIsNull : Bool}
  {desc : ModelDescription}

structure Allocated (desc : ModelDescription) (s : ImporterState F D) : Prop where
  rx : s.valRxBinary.length = desc.rxBinary.length
  tx : s.valTxBinary.length = desc.txBinary.length

/-- The first description of an output is there or not looked at. -/
def FirstInside (emptyIsNull : Bool) (desc : ModelDescription) : Prop :=
  desc.txBinary ≠ [] ∨ emptyIsNull = true

theorem injectFirst_eq (inside : FirstInside emptyIsNull desc) (step : Nat)
    (network : List NetworkSignal) :
    injectFirst ncodec (allocVar emptyIsNull desc) step network =
      some (injectFrame ncodec desc.txBinary step network) := by
  cases tx : desc.txBinary with
  | nil =>
      obtain rfl : emptyIsNull = true := inside.resolve_left (absurd tx)
      simp [injectFirst, allocVar, allocInfo, tx, injectFrame]
  | cons v rest =>
      cases mime : v.info.mimeType with
      | none => simp [injectFirst, allocVar, allocInfo, tx, injectFrame, mime]
      | some mimeType =>
          by_cases frame : v.info.type = some "frame"
          · simp [injectFirst, allocVar, allocInfo, tx, injectFrame, mime, frame]
          · simp [injectFirst, allocVar, allocInfo, tx, injectFrame, mime, frame]

theorem injectFirst_outside (outside : ¬ FirstInside emptyIsNull desc) (step : Nat)
    (network : List NetworkSignal) :
    injectFirst ncodec (allocVar emptyIsNull desc) step network = none := by
  simp only [FirstInside, not_or, not_not, Bool.not_eq_true] at outside
  simp [injectFirst, allocVar, allocInfo, outside]

theorem foldlM_pushAt {vals : List (Option CString)}
    (same : vals.length = desc.txBinary.length) (network : List NetworkSignal) :
    (List.range (allocVar emptyIsNull desc).txCount).foldlM
        (pushAt lib ncodec signalBusEnabled (allocVar emptyIsNull desc)) (network, vals) =
      some (pushBinary lib ncodec signalBusEnabled network (desc.txBinary.zip vals)) := by
  rw [pushBinary_eq_accumulate]
  have info : (allocVar emptyIsNull desc).txBinaryInfo = allocInfo emptyIsNull desc.txBinary := rfl
  apply foldlM_of_allocInfo info _ network same
  exact fun info => pushAt_doesStep lib ncodec signalBusEnabled info

theorem foldlM_pullAt {vals : List (Option CString)}
    (same : vals.length = desc.rxBinary.length) (network : List NetworkSignal) :
    (List.range (allocVar emptyIsNull desc).rxCount).foldlM
        (pullAt lib ncodec (allocVar emptyIsNull desc)) (network, vals) =
      some (pullBinary lib ncodec network (desc.rxBinary.zip vals)) := by
  rw [pullBinary_eq_accumulate]
  have info : (allocVar emptyIsNull desc).rxBinaryInfo = allocInfo emptyIsNull desc.rxBinary := rfl
  apply foldlM_of_allocInfo info _ network same
  exact fun info => pullAt_doesStep lib ncodec info

theorem checkedLoopback_eq (inside : FirstInside emptyIsNull desc) {s : ImporterState F D}
    (allocated : Allocated desc s) (step : Nat) :
    checkedLoopback lib ncodec signalBusEnabled (allocVar emptyIsNull desc) step s =
      some (loopback lib ncodec signalBusEnabled desc step s) := by
  rw [checkedLoopback]
  dsimp only
  rw [foldlM_pushAt allocated.tx]
  simp [injectFirst_eq inside, foldlM_pullAt allocated.rx, loopback]

theorem checkedLoopback_outside (outside : ¬ FirstInside emptyIsNull desc)
    {s : ImporterState F D} (allocated : Allocated desc s) (step : Nat) :
    checkedLoopback lib ncodec signalBusEnabled (allocVar emptyIsNull desc) step s = none := by
  rw [checkedLoopback]
  dsimp only
  rw [foldlM_pushAt allocated.tx]
  simp [injectFirst_outside outside]

theorem accumulate_unit (f : BinaryVariable → Option CString → Option CString)
    (entries : List (BinaryVariable × Option CString)) :
    accumulate (fun _ v val => ((), f v val)) () entries =
      ((), entries.map fun entry => f entry.1 entry.2) := by
  induction entries with
  | nil => rfl
  | cons entry entries ih => simp [accumulate, ih]

theorem foldlM_releaseAt {vals : List (Option CString)}
    (same : vals.length = desc.rxBinary.length) :
    (List.range (allocVar emptyIsNull desc).rxCount).foldlM releaseAt ((), vals) =
      some ((), vals.map fun _ => none) := by
  refine ((releaseAt_doesStep desc.rxBinary).foldlM_range same.symm ()).trans ?_
  rw [accumulate_unit fun _ _ => none]
  simp [same]

theorem foldlM_duplicateAt {vals : List (Option CString)}
    (same : vals.length = desc.txBinary.length) :
    (List.range (allocVar emptyIsNull desc).txCount).foldlM duplicateAt ((), vals) =
      some ((), vals) := by
  refine ((duplicateAt_doesStep desc.txBinary).foldlM_range same.symm ()).trans ?_
  rw [accumulate_unit fun _ val => val]
  have second : (desc.txBinary.zip vals).map (fun entry => entry.2) = vals :=
    List.map_snd_zip same.le
  rw [second]

variable (lib ncodec signalBusEnabled) in
theorem loopback_allocated {s : ImporterState F D} (allocated : Allocated desc s) (step : Nat) :
    Allocated desc (loopback lib ncodec signalBusEnabled desc step s) := by
  constructor
  · simp [loopback, pullBinary_eq_accumulate, allocated.rx]
  · simp [loopback, pushBinary_eq_accumulate, allocated.tx]

variable [LinearOrder D] {numbers : Numbers D}

theorem Allocated.applySamplesAt {s : ImporterState F D} (allocated : Allocated desc s) (time : D) :
    Allocated desc (applySamplesAt numbers s time) := by
  obtain ⟨-, rx, tx, -⟩ := applySamplesAt_keeps numbers s time
  exact ⟨by rw [rx]; exact allocated.rx, by rw [tx]; exact allocated.tx⟩

theorem allocated_start (fmu : F) (starts txStarts : List D) (csv : Option (CsvDesc D)) :
    Allocated desc (startState numbers desc fmu starts txStarts csv) := by
  apply Allocated.applySamplesAt
  exact ⟨List.length_map _, List.length_map _⟩

variable [Add D] {stepSize : D}

/-- The FMU writes values into the array it is given. -/
def Fmi2Functions.KeepsCount (fmi : Fmi2Functions F D) : Prop :=
  ∀ fmu vrs vals, (fmi.getString fmu vrs vals).2.length = vals.length

def Fmi3Functions.KeepsCount (fmi : Fmi3Functions F D) : Prop :=
  ∀ fmu vrs sizes vals, (fmi.getBinary fmu vrs sizes vals).2.2.length = vals.length

theorem checkedFmu2Step_eq {fmi : Fmi2Functions F D} (keeps : fmi.KeepsCount)
    (inside : FirstInside emptyIsNull desc) {s : ImporterState F D} (allocated : Allocated desc s)
    (step : Nat) :
    checkedFmu2Step numbers lib ncodec signalBusEnabled desc (allocVar emptyIsNull desc) stepSize
        fmi step s =
      some (fmu2Step numbers lib ncodec signalBusEnabled desc stepSize fmi step s) := by
  have looped := loopback_allocated lib ncodec signalBusEnabled allocated step
  rw [checkedFmu2Step, checkedLoopback_eq inside allocated]
  dsimp only [Option.bind_eq_bind, Option.bind_some]
  rw [foldlM_releaseAt looped.rx]
  dsimp only [Option.bind_some]
  rw [foldlM_duplicateAt ((keeps _ _ _).trans looped.tx)]
  rfl

theorem checkedFmu3Step_eq {fmi : Fmi3Functions F D} (keeps : fmi.KeepsCount)
    (inside : FirstInside emptyIsNull desc) {s : ImporterState F D} (allocated : Allocated desc s)
    (step : Nat) :
    checkedFmu3Step numbers lib ncodec signalBusEnabled desc (allocVar emptyIsNull desc) stepSize
        fmi step s =
      some (fmu3Step numbers lib ncodec signalBusEnabled desc stepSize fmi step s) := by
  have looped := loopback_allocated lib ncodec signalBusEnabled allocated step
  rw [checkedFmu3Step, checkedLoopback_eq inside allocated]
  dsimp only [Option.bind_eq_bind, Option.bind_some]
  rw [foldlM_releaseAt looped.rx]
  dsimp only [Option.bind_some]
  rw [foldlM_duplicateAt ((keeps _ _ _ _).trans looped.tx)]
  rfl

theorem fmu2Step_allocated {fmi : Fmi2Functions F D} (keeps : fmi.KeepsCount)
    {s : ImporterState F D} (allocated : Allocated desc s) (step : Nat) :
    Allocated desc (fmu2Step numbers lib ncodec signalBusEnabled desc stepSize fmi step s).1 := by
  have looped := loopback_allocated lib ncodec signalBusEnabled allocated step
  apply Allocated.applySamplesAt
  exact ⟨(List.length_map _).trans looped.rx, (keeps _ _ _).trans looped.tx⟩

theorem fmu3Step_allocated {fmi : Fmi3Functions F D} (keeps : fmi.KeepsCount)
    {s : ImporterState F D} (allocated : Allocated desc s) (step : Nat) :
    Allocated desc (fmu3Step numbers lib ncodec signalBusEnabled desc stepSize fmi step s).1 := by
  have looped := loopback_allocated lib ncodec signalBusEnabled allocated step
  apply Allocated.applySamplesAt
  exact ⟨(List.length_map _).trans looped.rx, (keeps _ _ _ _).trans looped.tx⟩

end Steps

theorem checkedSteps_eq {S E : Type} {checked : Nat → S → Option (S × E)} {body : Nat → S → S × E}
    (inv : S → Prop) (agrees : ∀ step s, inv s → checked step s = some (body step s))
    (keeps : ∀ step s, inv s → inv (body step s).1) (steps step : Nat) {s : S} (start : inv s) :
    checkedSteps checked steps step s = some (runSteps body steps step s) := by
  induction steps generalizing step s with
  | zero => rfl
  | succ steps ih =>
      rw [checkedSteps, agrees step s start]
      dsimp only [Option.bind_eq_bind, Option.bind_some]
      rw [ih (step + 1) (keeps step s start)]
      rfl

/-- Without the first array a run is defined only when it has no step. -/
theorem isSome_checkedSteps_iff {S E : Type} {checked : Nat → S → Option (S × E)}
    {steps step : Nat} {s : S} {inside : Prop}
    (defined : inside → (checkedSteps checked steps step s).isSome = true)
    (fails : ¬ inside → checked step s = none) :
    (checkedSteps checked steps step s).isSome = true ↔ steps = 0 ∨ inside := by
  by_cases holds : inside
  · simp [defined holds, holds]
  · cases steps with
    | zero => simp [checkedSteps]
    | succ steps => simp [checkedSteps, fails holds, holds]

section Runs

variable {F G D : Type} [LinearOrder D] [Add D] {numbers : Numbers D} {lib : CLib}
  {ncodec : NCodec} {signalBusEnabled emptyIsNull : Bool} {desc : ModelDescription}
  {stepSize : D} {steps : Nat}

theorem checkedFmu2Cosim_eq {fmi : Fmi2Functions F D} (keeps : fmi.KeepsCount)
    (inside : FirstInside emptyIsNull desc) {start : ImporterState F D}
    (allocated : Allocated desc start) :
    checkedFmu2Cosim numbers lib ncodec signalBusEnabled emptyIsNull desc stepSize steps start fmi =
      some (runFmu2Cosim numbers lib ncodec signalBusEnabled desc stepSize steps start fmi) :=
  checkedSteps_eq (Allocated desc)
    (fun step _ held => checkedFmu2Step_eq keeps inside held step)
    (fun step _ held => fmu2Step_allocated keeps held step) steps 0 allocated

theorem checkedFmu3Cosim_eq {fmi : Fmi3Functions F D} (keeps : fmi.KeepsCount)
    (inside : FirstInside emptyIsNull desc) {start : ImporterState F D}
    (allocated : Allocated desc start) :
    checkedFmu3Cosim numbers lib ncodec signalBusEnabled emptyIsNull desc stepSize steps start fmi =
      some (runFmu3Cosim numbers lib ncodec signalBusEnabled desc stepSize steps start fmi) :=
  checkedSteps_eq (Allocated desc)
    (fun step _ held => checkedFmu3Step_eq keeps inside held step)
    (fun step _ held => fmu3Step_allocated keeps held step) steps 0 allocated

/-- The condition under which no loop reads behind an array. -/
def AccessesInside (emptyIsNull : Bool) (desc : ModelDescription) (steps : Nat) : Prop :=
  steps = 0 ∨ FirstInside emptyIsNull desc

theorem isSome_checkedFmu2Cosim_iff {fmi : Fmi2Functions F D} (keeps : fmi.KeepsCount)
    {start : ImporterState F D} (allocated : Allocated desc start) :
    (checkedFmu2Cosim numbers lib ncodec signalBusEnabled emptyIsNull desc stepSize steps start
      fmi).isSome = true ↔ AccessesInside emptyIsNull desc steps := by
  apply isSome_checkedSteps_iff
  · intro inside
    exact Option.isSome_of_eq_some (checkedFmu2Cosim_eq keeps inside allocated)
  · intro outside
    rw [checkedFmu2Step, checkedLoopback_outside outside allocated]
    rfl

theorem isSome_checkedFmu3Cosim_iff {fmi : Fmi3Functions F D} (keeps : fmi.KeepsCount)
    {start : ImporterState F D} (allocated : Allocated desc start) :
    (checkedFmu3Cosim numbers lib ncodec signalBusEnabled emptyIsNull desc stepSize steps start
      fmi).isSome = true ↔ AccessesInside emptyIsNull desc steps := by
  apply isSome_checkedSteps_iff
  · intro inside
    exact Option.isSome_of_eq_some (checkedFmu3Cosim_eq keeps inside allocated)
  · intro outside
    rw [checkedFmu3Step, checkedLoopback_outside outside allocated]
    rfl

/-- Both loops stay inside of their arrays exactly when there is an output, no step, or no
array for nothing. -/
theorem cosim_accesses_iff (numbers : Numbers D) (lib : CLib) (ncodec : NCodec)
    (signalBusEnabled emptyIsNull : Bool) (desc : ModelDescription) (stepSize : D) (steps : Nat)
    {fmi2 : Fmi2Functions F D} {fmi3 : Fmi3Functions G D} (keeps2 : fmi2.KeepsCount)
    (keeps3 : fmi3.KeepsCount) (fmu : F) (gmu : G) (starts txStarts : List D)
    (csv : Option (CsvDesc D)) :
    ((checkedFmu2Cosim numbers lib ncodec signalBusEnabled emptyIsNull desc stepSize steps
        (startState numbers desc fmu starts txStarts csv) fmi2).isSome = true ↔
      AccessesInside emptyIsNull desc steps) ∧
    ((checkedFmu3Cosim numbers lib ncodec signalBusEnabled emptyIsNull desc stepSize steps
        (startState numbers desc gmu starts txStarts csv) fmi3).isSome = true ↔
      AccessesInside emptyIsNull desc steps) :=
  ⟨isSome_checkedFmu2Cosim_iff keeps2 (allocated_start fmu starts txStarts csv),
    isSome_checkedFmu3Cosim_iff keeps3 (allocated_start gmu starts txStarts csv)⟩

end Runs

def silentFmu2 : Fmi2Functions Unit Int where
  setString _ _ _ := ()
  setReal _ _ _ := ()
  doStep _ _ _ := ((), 0)
  getReal _ _ vals := ((), vals)
  getString _ _ vals := ((), vals)

theorem silentFmu3_length_sizes (fmu : Unit) (vr : List UInt32) (sizes : List Nat)
    (vals : List (Option CString)) :
    ((fun _ _ sizes _ => ((), sizes) :
      Unit → List UInt32 → List Nat → List (Option CString) → Unit × List Nat)
        fmu vr sizes vals).2.length = sizes.length := rfl

def silentFmu3 : Fmi3Functions Unit Int where
  setBinary _ _ sizes _ := ((), sizes)
  setFloat64 _ _ _ := ()
  doStep _ _ _ := ((), 0)
  getFloat64 _ _ vals := ((), vals)
  getBinary _ _ sizes vals := ((), sizes, vals)
  length_sizes := silentFmu3_length_sizes

theorem cosim_accesses_bus :
    ((checkedFmu2Cosim decimal escapingLib pduCodecs true false busVariables 1 2
        (startState decimal busVariables () [] [] none) silentFmu2).isSome = true ↔
      AccessesInside false busVariables 2) ∧
    ((checkedFmu3Cosim decimal escapingLib pduCodecs true false busVariables 1 2
        (startState decimal busVariables () [] [] none) silentFmu3).isSome = true ↔
      AccessesInside false busVariables 2) := by
  have keeps2 : silentFmu2.KeepsCount := fun _ _ _ => rfl
  have keeps3 : silentFmu3.KeepsCount := fun _ _ _ _ => rfl
  exact cosim_accesses_iff decimal escapingLib pduCodecs true false busVariables 1 2 keeps2 keeps3
    () () [] [] none

def noVariables : ModelDescription := ⟨[], [], [], []⟩

/-- The first description is read where there is none. -/
theorem cosim_accesses_empty :
    checkedFmu2Cosim decimal escapingLib pduCodecs true false noVariables 1 1
        (startState decimal noVariables () [] [] none) silentFmu2 = none ∧
      checkedFmu3Cosim decimal escapingLib pduCodecs true false noVariables 1 1
        (startState decimal noVariables () [] [] none) silentFmu3 = none :=
  ⟨rfl, rfl⟩

end DseFmi.Importer
