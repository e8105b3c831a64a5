import DseFmi.Fmu.BinaryFmi3
import DseFmi.Fmu.Exchange
import DseFmi.Fmu.SameButLog
import DseFmi.Fmu.VarTableRun

/-!
# One FMU behind both versions

An importer may load the same FMU over FMI 2 or over FMI 3. The binary variables are strings
in the one case and binaries in the other. All steps are offered the same but for the log; what is
read between two steps is the same too, except that setting strings alone clears the outputs of an
FMI 2 FMU.
-/

namespace DseFmi.Fmu

open DseFmi.Library

def fmi3OK : Nat := 0

def fmi3DoStep (step : FmuStep) (fmu : FmuInstanceData)
    (currentCommunicationPoint communicationStepSize : Double) : FmuInstanceData × Nat :=
  let result := step.run (offered fmu) currentCommunicationPoint communicationStepSize
  let fmu := result.1.marshalList.foldl marshalFromTable result.1
  ({ fmu with signalsReset := false }, if result.2 = 0 then fmi3OK else fmi3Error)

inductive ImporterCall where
  | setReals (request : Request)
  | getReals (request : Request)
  | setTexts (request : List (UInt32 × Option CString))
  | getTexts (vrs : List UInt32)
  | doStep (currentCommunicationPoint communicationStepSize : Double)

inductive Answer (Texts : Type) where
  | done
  | reals (values : List Double)
  | texts (values : Texts)
  | stepped (offered : FmuInstanceData) (status : Nat)

def textEntry (vr : UInt32) : Option CString → BinaryEntry
  | none => ⟨vr, 0, .null⟩
  | some s => ⟨vr, s.bytes.length, .text s⟩

section Importer

variable (lib : CLib) (step : FmuStep)

def fmi2Call (fmu : FmuInstanceData) : ImporterCall → FmuInstanceData × Answer (List StringValue)
  | .setReals request => (fmi2SetReal fmu request, .done)
  | .getReals request => ((fmi2GetReal fmu request).1, .reals (fmi2GetReal fmu request).2)
  | .setTexts request => (fmi2SetString lib fmu request, .done)
  | .getTexts vrs => (fmu, .texts (fmi2GetString lib fmu vrs))
  | .doStep t h => ((fmi2DoStep step fmu t h).1, .stepped (offered fmu) (fmi2DoStep step fmu t h).2)

variable (binary : UInt32 → Bool)

def binaryEntries (request : List (UInt32 × Option CString)) : List BinaryEntry :=
  (request.filter fun entry => binary entry.1).map fun entry => textEntry entry.1 entry.2

def stringEntries (request : List (UInt32 × Option CString)) : List (UInt32 × Option CString) :=
  request.filter fun entry => !binary entry.1

/-- An importer of FMI 3 knows which variables are declared binary, and makes no call for
none. -/
def setTexts (fmu : FmuInstanceData) (request : List (UInt32 × Option CString)) :
    FmuInstanceData :=
  let entries := binaryEntries binary request
  let fmu := if entries.isEmpty then fmu else (fmi3SetBinary lib fmu entries).1
  fmi3SetString fmu (stringEntries binary request)

def fmi3Call (fmu : FmuInstanceData) :
    ImporterCall → FmuInstanceData × Answer (List (Nat × Fmi3Binary))
  | .setReals request => (fmi3SetFloat64 fmu request, .done)
  | .getReals request => ((fmi3GetFloat64 fmu request).1, .reals (fmi3GetFloat64 fmu request).2)
  | .setTexts request => (setTexts lib binary fmu request, .done)
  | .getTexts vrs => (fmu, .texts (fmi3GetBinary lib fmu (vrs.map (·, 0))))
  | .doStep t h => ((fmi3DoStep step fmu t h).1, .stepped (offered fmu) (fmi3DoStep step fmu t h).2)

/-- The versions that have reset the signals since the last step. -/
inductive ResetBy where
  | neither
  | fmi2
  | both
  deriving DecidableEq, Repr

/-- The setter of strings resets the signals of FMI 2 only. -/
def ResetBy.afterStrings : ResetBy → ResetBy
  | .neither => .fmi2
  | .fmi2 => .fmi2
  | .both => .both

def ResetBy.next (r : ResetBy) : ImporterCall → ResetBy
  | .setTexts request =>
      if (binaryEntries binary request).isEmpty then r.afterStrings else .both
  | .doStep _ _ => .neither
  | .setReals _ => r
  | .getReals _ => r
  | .getTexts _ => r

end Importer

/-- A text and a binary with its size that are got from the same signal. -/
def SameText : StringValue → Nat × Fmi3Binary → Prop
  | .null, (_, .null) => True
  | .text s, (_, .text t) => s = t
  | .text s, (size, .bytes data) =>
      size = data.length ∧
        if 0 ∈ data then s.bytes = data.takeWhile (· ≠ 0) else data <+: s.bytes
  | .overread, (size, .bytes data) => size = data.length ∧ 0 ∉ data
  | _, _ => False

/-- The answers agree. The texts of FMI 2 are gone when only its signals are reset. -/
def Answer.Agree (r : ResetBy) :
    Answer (List StringValue) → Answer (List (Nat × Fmi3Binary)) → Prop
  | .done, .done => True
  | .reals values, .reals others => values = others
  | .texts values, .texts others =>
      if r = .fmi2 then ∀ value ∈ values, value = .null else List.Forall₂ SameText values others
  | .stepped o status, .stepped p other => SameButLog o p ∧ status = other
  | _, _ => False

structure VersionsAgree (binary : UInt32 → Bool) (r : ResetBy) (fmu gmu : FmuInstanceData) :
    Prop where
  same : SameButLog fmu (if r = .fmi2 then fmuDefaultSignalsReset gmu else gmu)
  reset : gmu.signalsReset = true ↔ r = .both
  allocated : gmu.Allocated
  declared : ∀ vr, binary vr = (gmu.binaryRx.lookup (vrIdx vr)).isSome

def FmuInstanceData.addString (fmu : FmuInstanceData) (k : String) (s : CString) :
    FmuInstanceData :=
  { fmu with stringInput := fmu.stringInput.insert k s }

section Texts

variable {lib : CLib} {binary : UInt32 → Bool} {fmu gmu : FmuInstanceData}

theorem reset_addString (fmu : FmuInstanceData) (k : String) (s : CString) :
    fmuDefaultSignalsReset (fmu.addString k s) = (fmuDefaultSignalsReset fmu).addString k s := by
  unfold fmuDefaultSignalsReset FmuInstanceData.addString
  dsimp only
  split <;> rfl

theorem setBinaryValue_addString (k : String) (s : CString) (entry : BinaryEntry) :
    (setBinaryValue lib (fmu.addString k s) entry).1 =
      (setBinaryValue lib fmu entry).1.addString k s := by
  unfold setBinaryValue FmuInstanceData.addString
  dsimp only
  split
  · rfl
  · split
    · rfl
    · split <;> rfl

theorem setBinaryValues_addString (k : String) (s : CString) (entries : List BinaryEntry) :
    (setBinaryValues lib (fmu.addString k s) entries).1 =
      (setBinaryValues lib fmu entries).1.addString k s := by
  induction entries generalizing fmu with
  | nil => rfl
  | cons entry entries ih =>
      rw [setBinaryValues, setBinaryValues]
      dsimp only
      rw [setBinaryValue_addString]
      exact ih

theorem take_text (s : CString) : (Fmi3Binary.text s).memory.take s.bytes.length = s.bytes := by
  simp [Fmi3Binary.memory]

/-- Both setters append the same bytes to a signal. -/
theorem setString_binary {vr : UInt32} {p : FmuSignalVectorIndex}
    (found : fmu.binaryRx.lookup (vrIdx vr) = some p) (value : Option CString) :
    setString lib fmu vr value = (setBinaryValue lib fmu (textEntry vr value)).1 := by
  cases value with
  | none => rfl
  | some s =>
      rw [setString, setBinaryValue, found]
      dsimp only
      rw [decodeString, textEntry]
      dsimp only
      rw [found, if_neg (by simp)]
      cases fmu.decodeFunc.lookup (vrIdx vr) with
      | none => simp only [take_text]
      | some df => simp only [Fmi3Binary.cString_text]

theorem fmi3SetString_cons (fmu : FmuInstanceData) (vr : UInt32) (s : CString)
    (request : List (UInt32 × Option CString)) :
    fmi3SetString fmu ((vr, some s) :: request) =
      fmi3SetString (fmu.addString (vrIdx vr) s) request := rfl

/-- A request of strings does what its binaries and then its other strings do. -/
theorem setStrings_split (declared : ∀ vr, binary vr = (fmu.binaryRx.lookup (vrIdx vr)).isSome)
    (request : List (UInt32 × Option CString)) :
    setStrings lib fmu request =
      fmi3SetString (setBinaryValues lib fmu (binaryEntries binary request)).1
        (stringEntries binary request) := by
  induction request generalizing fmu with
  | nil => rfl
  | cons entry request ih =>
      obtain ⟨vr, value⟩ := entry
      have known := declared vr
      cases found : fmu.binaryRx.lookup (vrIdx vr) with
      | some p =>
          rw [found] at known
          have rx : (setBinaryValue lib fmu (textEntry vr value)).1.binaryRx = fmu.binaryRx :=
            setBinaryValue_rx _
          have first : setStrings lib fmu ((vr, value) :: request) =
              setStrings lib (setBinaryValue lib fmu (textEntry vr value)).1 request :=
            congrArg (setStrings lib · request) (setString_binary found value)
          rw [first, ih (by rwa [rx])]
          simp [binaryEntries, stringEntries, known, setBinaryValues]
      | none =>
          rw [found] at known
          have entries : binaryEntries binary ((vr, value) :: request) =
              binaryEntries binary request := by
            simp [binaryEntries, known]
          have strings : stringEntries binary ((vr, value) :: request) =
              (vr, value) :: stringEntries binary request := by
            simp [stringEntries, known]
          rw [entries, strings]
          cases value with
          | none => exact ih declared
          | some s =>
              have first : setStrings lib fmu ((vr, some s) :: request) =
                  setStrings lib (fmu.addString (vrIdx vr) s) request := by
                apply congrArg (setStrings lib · request)
                simp [setString, found, FmuInstanceData.addString]
              have known_after : ∀ vr', binary vr' =
                  ((fmu.addString (vrIdx vr) s).binaryRx.lookup (vrIdx vr')).isSome := declared
              rw [first, ih known_after, setBinaryValues_addString, fmi3SetString_cons]

theorem reset_fmi3SetString (request : List (UInt32 × Option CString)) :
    fmuDefaultSignalsReset (fmi3SetString fmu request) =
      fmi3SetString (fmuDefaultSignalsReset fmu) request := by
  induction request generalizing fmu with
  | nil => rfl
  | cons entry request ih =>
      obtain ⟨vr, value⟩ := entry
      cases value with
      | none => exact ih
      | some s => rw [fmi3SetString_cons, ih, reset_addString, fmi3SetString_cons]

end Texts

section Reals

variable (errors : ErrorLog) {fmu : FmuInstanceData}

theorem reset_setScalar (fmu : FmuInstanceData) (p : FmuSignalVectorIndex) (x : Double) :
    fmuDefaultSignalsReset (fmu.setScalar p x) = (fmuDefaultSignalsReset fmu).setScalar p x := by
  unfold fmuDefaultSignalsReset FmuInstanceData.setScalar
  dsimp only
  split
  · congr 1
    apply List.ext_getElem?
    intro i
    simp only [List.getElem?_map, List.getElem?_modify]
    cases fmu.data[i]? with
    | none => rfl
    | some sv =>
        by_cases same : p.sv = i
        · simp [same, FmuSignalVector.resetBinary, FmuSignalVector.setScalar]
        · simp [same]
  · rfl

theorem reset_withDirect (fmu : FmuInstanceData) (di : Option DirectIndex) :
    fmuDefaultSignalsReset { fmu with directIndex := di } =
      { fmuDefaultSignalsReset fmu with directIndex := di } := by
  unfold fmuDefaultSignalsReset
  dsimp only
  split <;> rfl

/-- A reset changes nothing that the accessors of reals look at. -/
theorem reset_reals (fmu : FmuInstanceData) :
    (fmuDefaultSignalsReset fmu).directIndex = fmu.directIndex ∧
      (fmuDefaultSignalsReset fmu).scalarInput = fmu.scalarInput ∧
      (fmuDefaultSignalsReset fmu).scalarOutput = fmu.scalarOutput := by
  unfold fmuDefaultSignalsReset
  split <;> exact ⟨rfl, rfl, rfl⟩

theorem getReal_reset (fmu : FmuInstanceData) (vr : UInt32) (value : Double) :
    SameButLog (getReal errors (fmuDefaultSignalsReset fmu) vr value).1
        (fmuDefaultSignalsReset (getReal errors fmu vr value).1) ∧
      (getReal errors (fmuDefaultSignalsReset fmu) vr value).2 =
        (getReal errors fmu vr value).2 := by
  obtain ⟨same, input, output⟩ := reset_reals fmu
  cases direct : fmu.directIndex with
  | some di =>
      rw [getReal_of_direct _ (same.trans direct), getReal_of_direct _ direct, getDirect, getDirect]
      split
      · exact ⟨(errors.sameButLog ..).trans (errors.sameButLog ..).reset.symm, rfl⟩
      · exact ⟨.of_eq (reset_withDirect fmu _).symm, rfl⟩
  | none =>
      have pointer : (fmuDefaultSignalsReset fmu).scalarPointer (vrIdx vr) =
          fmu.scalarPointer (vrIdx vr) := by
        rw [FmuInstanceData.scalarPointer, FmuInstanceData.scalarPointer, input, output]
      rw [getReal_of_indexed _ (same.trans direct), getReal_of_indexed _ direct, getIndexed,
        getIndexed, pointer]
      cases fmu.scalarPointer (vrIdx vr) with
      | none => exact ⟨.refl _, rfl⟩
      | some signal =>
          dsimp only
          rw [getScalar_reset]
          exact ⟨.refl _, rfl⟩

theorem setReal_reset (fmu : FmuInstanceData) (vr : UInt32) (value : Double) :
    SameButLog (setReal errors (fmuDefaultSignalsReset fmu) vr value)
      (fmuDefaultSignalsReset (setReal errors fmu vr value)) := by
  obtain ⟨same, input, _⟩ := reset_reals fmu
  cases direct : fmu.directIndex with
  | some di =>
      rw [setReal_of_direct _ (same.trans direct), setReal_of_direct _ direct, setDirect, setDirect]
      split
      · exact (errors.sameButLog ..).trans (errors.sameButLog ..).reset.symm
      · exact .of_eq (reset_withDirect fmu _).symm
  | none =>
      rw [setReal_of_indexed _ (same.trans direct), setReal_of_indexed _ direct, setIndexed,
        setIndexed, input]
      cases fmu.scalarInput.lookup (vrIdx vr) with
      | none => exact .refl _
      | some signal =>
          rw [reset_setScalar]
          exact .refl _

theorem getReals_reset (fmu : FmuInstanceData) (request : Request) :
    SameButLog (getReals errors (fmuDefaultSignalsReset fmu) request).1
        (fmuDefaultSignalsReset (getReals errors fmu request).1) ∧
      (getReals errors (fmuDefaultSignalsReset fmu) request).2 =
        (getReals errors fmu request).2 := by
  induction request generalizing fmu with
  | nil => exact ⟨.refl _, rfl⟩
  | cons entry request ih =>
      obtain ⟨vr, value⟩ := entry
      obtain ⟨first, got⟩ := getReal_reset errors fmu vr value
      obtain ⟨rest, values⟩ := ih (getReal errors fmu vr value).1
      obtain ⟨moved, moved_values⟩ :=
        first.getReals errors errors request
      rw [getReals, getReals]
      dsimp only
      exact ⟨moved.trans rest, by rw [got, moved_values, values]⟩

theorem setReals_reset (fmu : FmuInstanceData) (request : Request) :
    SameButLog (setReals errors (fmuDefaultSignalsReset fmu) request)
      (fmuDefaultSignalsReset (setReals errors fmu request)) := by
  induction request generalizing fmu with
  | nil => exact .refl _
  | cons entry request ih =>
      have first := setReal_reset errors fmu entry.1 entry.2
      exact (first.setReals errors errors request).trans (ih _)

/-- Accesses to reals keep the binary variables and the state of the reset. -/
structure RealsFrame (fmu gmu : FmuInstanceData) : Prop where
  index : SameBinaryIndex fmu gmu
  reset : gmu.signalsReset = fmu.signalsReset

theorem RealsFrame.refl (fmu : FmuInstanceData) : RealsFrame fmu fmu := ⟨.refl fmu, rfl⟩

theorem RealsFrame.trans {gmu hmu : FmuInstanceData} (first : RealsFrame fmu gmu)
    (second : RealsFrame gmu hmu) : RealsFrame fmu hmu :=
  ⟨first.index.trans second.index, second.reset.trans first.reset⟩

theorem realsFrame_fmuLog (fmu : FmuInstanceData) (status : Nat) (category message : String) :
    RealsFrame fmu (errors.fmuLog fmu status category message) := by
  obtain ⟨logged, log⟩ := errors.fmuLog_eq fmu status category message
  rw [log]
  exact ⟨⟨rfl, rfl, id, fun _ => id⟩, rfl⟩

theorem realsFrame_setScalar (fmu : FmuInstanceData) (p : FmuSignalVectorIndex) (x : Double) :
    RealsFrame fmu (fmu.setScalar p x) := by
  refine ⟨⟨rfl, rfl, fun allocated => allocated.setScalar p x, ?_⟩, rfl⟩
  intro q valid
  rwa [getBinary_setScalar]

theorem realsFrame_getReal (fmu : FmuInstanceData) (vr : UInt32) (value : Double) :
    RealsFrame fmu (getReal errors fmu vr value).1 := by
  unfold getReal getDirect getIndexed
  split
  · split
    · exact realsFrame_fmuLog errors fmu _ _ _
    · exact ⟨⟨rfl, rfl, id, fun _ => id⟩, rfl⟩
  · split <;> exact .refl fmu

theorem realsFrame_setReal (fmu : FmuInstanceData) (vr : UInt32) (value : Double) :
    RealsFrame fmu (setReal errors fmu vr value) := by
  unfold setReal setDirect setIndexed
  split
  · split
    · exact realsFrame_fmuLog errors fmu _ _ _
    · exact ⟨⟨rfl, rfl, id, fun _ => id⟩, rfl⟩
  · split
    · exact .refl fmu
    · exact realsFrame_setScalar fmu _ _

theorem realsFrame_getReals (fmu : FmuInstanceData) (request : Request) :
    RealsFrame fmu (getReals errors fmu request).1 := by
  induction request generalizing fmu with
  | nil => exact .refl fmu
  | cons entry request ih => exact (realsFrame_getReal errors fmu entry.1 entry.2).trans (ih _)

theorem realsFrame_setReals (fmu : FmuInstanceData) (request : Request) :
    RealsFrame fmu (setReals errors fmu request) := by
  induction request generalizing fmu with
  | nil => exact .refl fmu
  | cons entry request ih => exact (realsFrame_setReal errors fmu entry.1 entry.2).trans (ih _)

end Reals

section Getting

variable {lib : CLib} {fmu : FmuInstanceData}

theorem sameText_strdup {buffer : Buffer} {data : List UInt8} (stored : buffer.binary = some data) :
    SameText (strdup data) (buffer.length, .bytes buffer.content) := by
  have content : buffer.content = data.take buffer.length := by
    rw [Buffer.content, stored, Option.getD_some]
  have size : buffer.length = buffer.content.length := (Buffer.length_content buffer).symm
  have split : data = buffer.content ++ data.drop buffer.length := by
    rw [content, List.take_append_drop]
  rw [strdup]
  by_cases inside : 0 ∈ buffer.content
  · have nul : 0 ∈ data := by
      rw [split]
      exact List.mem_append_left _ inside
    rw [if_pos nul]
    refine ⟨size, ?_⟩
    rw [if_pos inside]
    have stops : ¬ (buffer.content.takeWhile (· ≠ 0)).length = buffer.content.length := by
      intro whole
      have same := (List.takeWhile_prefix _).eq_of_length whole
      rw [← same] at inside
      simpa using List.mem_takeWhile_imp inside
    calc data.takeWhile (· ≠ 0)
        = (buffer.content ++ data.drop buffer.length).takeWhile (· ≠ 0) := by rw [← split]
      _ = buffer.content.takeWhile (· ≠ 0) := by rw [List.takeWhile_append, if_neg stops]
  · by_cases nul : 0 ∈ data
    · rw [if_pos nul]
      refine ⟨size, ?_⟩
      rw [if_neg inside]
      have plain : ∀ b ∈ buffer.content, decide (b ≠ 0) = true := by
        intro b member
        rw [decide_eq_true_iff]
        rintro rfl
        exact inside member
      refine ⟨(data.drop buffer.length).takeWhile (· ≠ 0), ?_⟩
      calc buffer.content ++ (data.drop buffer.length).takeWhile (· ≠ 0)
          = (buffer.content ++ data.drop buffer.length).takeWhile (· ≠ 0) :=
            (List.takeWhile_append_of_pos plain).symm
        _ = data.takeWhile (· ≠ 0) := by rw [← split]
    · rw [if_neg nul]
      exact ⟨size, inside⟩

theorem sameText_getString (fmu : FmuInstanceData) (vr : UInt32) :
    SameText (getString lib fmu vr) (getBinaryValue lib fmu vr 0) := by
  rw [getString, getBinaryValue]
  cases (fmu.binaryTx.lookup (vrIdx vr)).bind fmu.getBinary with
  | none => trivial
  | some signal =>
      dsimp only
      cases stored : signal.buffer.binary with
      | none => trivial
      | some data =>
          dsimp only
          split
          · trivial
          · cases fmu.encodeFunc.lookup (vrIdx vr) with
            | none => exact sameText_strdup stored
            | some ef => exact rfl

theorem sameTexts (fmu : FmuInstanceData) (vrs : List UInt32) :
    List.Forall₂ SameText (fmi2GetString lib fmu vrs) (fmi3GetBinary lib fmu (vrs.map (·, 0))) := by
  induction vrs with
  | nil => exact .nil
  | cons vr vrs ih => exact .cons (sameText_getString fmu vr) ih

theorem fmi2GetString_reset (allocated : fmu.Allocated) (pending : fmu.signalsReset = false)
    (vrs : List UInt32) :
    ∀ value ∈ fmi2GetString lib (fmuDefaultSignalsReset fmu) vrs, value = .null := by
  intro value member
  obtain ⟨vr, _, rfl⟩ := List.mem_map.mp member
  rw [getString]
  cases tx : (fmuDefaultSignalsReset fmu).binaryTx.lookup (vrIdx vr) with
  | none => rfl
  | some p =>
      rw [Option.bind_some, getBinary_reset allocated pending]
      cases fmu.getBinary p with
      | none => rfl
      | some s =>
          rw [Option.map_some]
          dsimp only
          rw [BinarySignal.buffer_reset]
          cases s.buffer.reset.binary with
          | none => rfl
          | some data => rfl

end Getting

section Runs

variable {lib : CLib} {step : FmuStep} {binary : UInt32 → Bool} {r : ResetBy}
  {fmu gmu : FmuInstanceData}

theorem offered_reset (fmu : FmuInstanceData) :
    offered (fmuDefaultSignalsReset fmu) = offered fmu := by
  rw [offered, reset_of_signalsReset (reset_signalsReset fmu), offered]

theorem fmi2DoStep_reset (fmu : FmuInstanceData) (t h : Double) :
    fmi2DoStep step (fmuDefaultSignalsReset fmu) t h = fmi2DoStep step fmu t h := by
  rw [fmi2DoStep, offered_reset, fmi2DoStep]

/-- Without binaries, the setter of strings is all that is called. -/
theorem setTexts_strings {request : List (UInt32 × Option CString)}
    (strings : (binaryEntries binary request).isEmpty = true) (fmu : FmuInstanceData) :
    setTexts lib binary fmu request = fmi3SetString fmu (stringEntries binary request) := by
  rw [setTexts]
  simp only [strings, if_true]

/-- With a binary, the calls do what the setter of FMI 2 does. -/
theorem setTexts_binaries (declared : ∀ vr, binary vr = (fmu.binaryRx.lookup (vrIdx vr)).isSome)
    {request : List (UInt32 × Option CString)}
    (binaries : (binaryEntries binary request).isEmpty = false) :
    setTexts lib binary fmu request = fmi2SetString lib fmu request := by
  have reset : ∀ vr, binary vr =
    ((fmuDefaultSignalsReset fmu).binaryRx.lookup (vrIdx vr)).isSome := by
    rw [(reset_index fmu).1]
    exact declared
  rw [setTexts, fmi2SetString, setStrings_split reset, fmi3SetBinary]
  simp [binaries]

theorem fmi2SetString_strings
    (declared : ∀ vr, binary vr = (fmu.binaryRx.lookup (vrIdx vr)).isSome)
    {request : List (UInt32 × Option CString)}
    (strings : (binaryEntries binary request).isEmpty = true) :
    fmi2SetString lib fmu request =
      fmuDefaultSignalsReset (fmi3SetString fmu (stringEntries binary request)) := by
  have reset : ∀ vr, binary vr =
    ((fmuDefaultSignalsReset fmu).binaryRx.lookup (vrIdx vr)).isSome := by
    rw [(reset_index fmu).1]
    exact declared
  rw [fmi2SetString, setStrings_split reset, List.isEmpty_iff.mp strings, reset_fmi3SetString]
  rfl

theorem fmi3SetString_keeps (fmu : FmuInstanceData) (request : List (UInt32 × Option CString)) :
    RealsFrame fmu (fmi3SetString fmu request) := by
  induction request generalizing fmu with
  | nil => exact .refl fmu
  | cons entry request ih =>
      obtain ⟨vr, value⟩ := entry
      cases value with
      | none => exact ih fmu
      | some s =>
          have first : RealsFrame fmu (fmu.addString (vrIdx vr) s) :=
            ⟨⟨rfl, rfl, id, fun _ => id⟩, rfl⟩
          exact first.trans (ih _)

theorem sameBinaryIndex_fmi2SetString (allocated : fmu.Allocated)
    (request : List (UInt32 × Option CString)) :
    SameBinaryIndex fmu (fmi2SetString lib fmu request) := by
  have rounds (gmu : FmuInstanceData) : SameBinaryIndex gmu (setStrings lib gmu request) := by
    induction request generalizing gmu with
    | nil => exact .refl gmu
    | cons entry request ih =>
        exact (sameBinaryIndex_setString lib gmu entry.1 entry.2).trans (ih _)
  exact (sameBinaryIndex_reset allocated).trans (rounds _)

theorem fmi2SetString_reset (fmu : FmuInstanceData) (request : List (UInt32 × Option CString)) :
    fmi2SetString lib (fmuDefaultSignalsReset fmu) request = fmi2SetString lib fmu request := by
  rw [fmi2SetString, reset_of_signalsReset (reset_signalsReset fmu), fmi2SetString]

/-- Calls that keep the binary variables and the reset keep the agreement. -/
theorem VersionsAgree.of_frame (agree : VersionsAgree binary r fmu gmu)
    {fmu' gmu' : FmuInstanceData}
    (same : SameButLog fmu' (if r = .fmi2 then fmuDefaultSignalsReset gmu' else gmu'))
    (frame : RealsFrame gmu gmu') : VersionsAgree binary r fmu' gmu' := by
  refine ⟨same, ?_, frame.index.allocated agree.allocated, ?_⟩
  · rw [frame.reset]
    exact agree.reset
  · rw [frame.index.rx]
    exact agree.declared

theorem VersionsAgree.setReals (agree : VersionsAgree binary r fmu gmu) (request : Request) :
    VersionsAgree binary r (fmi2SetReal fmu request) (fmi3SetFloat64 gmu request) := by
  apply agree.of_frame _ (realsFrame_setReals fmi3Errors gmu request)
  have same := agree.same.setReals fmi2Errors fmi3Errors request
  by_cases only : r = .fmi2
  · rw [if_pos only] at same ⊢
    exact same.trans (setReals_reset fmi3Errors gmu request)
  · rw [if_neg only] at same ⊢
    exact same

theorem VersionsAgree.getReals (agree : VersionsAgree binary r fmu gmu) (request : Request) :
    VersionsAgree binary r (fmi2GetReal fmu request).1 (fmi3GetFloat64 gmu request).1 ∧
      (fmi2GetReal fmu request).2 = (fmi3GetFloat64 gmu request).2 := by
  have frame := realsFrame_getReals fmi3Errors gmu request
  have before := agree.same
  by_cases only : r = .fmi2
  · rw [if_pos only] at before
    obtain ⟨same, values⟩ := before.getReals fmi2Errors fmi3Errors request
    obtain ⟨reset, unchanged⟩ := getReals_reset fmi3Errors gmu request
    refine ⟨agree.of_frame ?_ frame, values.trans unchanged⟩
    rw [if_pos only]
    exact same.trans reset
  · rw [if_neg only] at before
    obtain ⟨same, values⟩ := before.getReals fmi2Errors fmi3Errors request
    refine ⟨agree.of_frame ?_ frame, values⟩
    rw [if_neg only]
    exact same

theorem VersionsAgree.sameStrings (agree : VersionsAgree binary r fmu gmu) (lib : CLib)
    (request : List (UInt32 × Option CString)) :
    SameButLog (fmi2SetString lib fmu request) (fmi2SetString lib gmu request) := by
  have same := agree.same.fmi2SetString lib request
  split at same
  · rwa [fmi2SetString_reset] at same
  · exact same

/-- Without binaries the signals are reset by FMI 2 alone, unless they are already. -/
theorem VersionsAgree.setStrings (agree : VersionsAgree binary r fmu gmu)
    {request : List (UInt32 × Option CString)}
    (strings : (binaryEntries binary request).isEmpty = true) :
    VersionsAgree binary (r.next binary (.setTexts request)) (fmi2SetString lib fmu request)
      (setTexts lib binary gmu request) := by
  have frame : RealsFrame gmu (setTexts lib binary gmu request) := by
    rw [setTexts_strings strings]
    exact fmi3SetString_keeps gmu _
  have same : SameButLog (fmi2SetString lib fmu request)
      (fmuDefaultSignalsReset (setTexts lib binary gmu request)) := by
    rw [setTexts_strings strings, ← fmi2SetString_strings agree.declared strings]
    exact agree.sameStrings lib request
  have allocated := frame.index.allocated agree.allocated
  have declared : ∀ vr, binary vr =
      ((setTexts lib binary gmu request).binaryRx.lookup (vrIdx vr)).isSome := by
    rw [frame.index.rx]
    exact agree.declared
  have reset := agree.reset
  rw [← frame.reset] at reset
  rw [ResetBy.next, if_pos strings]
  cases r with
  | neither =>
      refine ⟨by simpa [ResetBy.afterStrings] using same, ?_, allocated, declared⟩
      simpa [ResetBy.afterStrings] using reset
  | fmi2 => exact ⟨by simpa [ResetBy.afterStrings] using same, reset, allocated, declared⟩
  | both =>
      rw [reset_of_signalsReset (reset.mpr rfl)] at same
      exact ⟨same, reset, allocated, declared⟩

theorem VersionsAgree.setBinaries (agree : VersionsAgree binary r fmu gmu)
    {request : List (UInt32 × Option CString)}
    (binaries : (binaryEntries binary request).isEmpty = false) :
    VersionsAgree binary (r.next binary (.setTexts request)) (fmi2SetString lib fmu request)
      (setTexts lib binary gmu request) := by
  have same : SameButLog (fmi2SetString lib fmu request) (fmi2SetString lib gmu request) :=
    agree.sameStrings lib request
  have index : SameBinaryIndex gmu (fmi2SetString lib gmu request) :=
    sameBinaryIndex_fmi2SetString agree.allocated request
  have next : r.next binary (.setTexts request) = .both := by
    rw [ResetBy.next, if_neg (by simp [binaries])]
  rw [setTexts_binaries agree.declared binaries, next]
  refine ⟨same, ?_, index.allocated agree.allocated, ?_⟩
  · rw [fmi2SetString, signalsReset_setStrings, reset_signalsReset]
    simp
  · rw [index.rx]
    exact agree.declared

theorem VersionsAgree.offered (agree : VersionsAgree binary r fmu gmu) :
    SameButLog (offered fmu) (offered gmu) := by
  have same := agree.same.offered
  split at same
  · rwa [offered_reset] at same
  · exact same

theorem VersionsAgree.doStep (agree : VersionsAgree binary r fmu gmu)
    (ignores : step.IgnoresLog) (t h : Double) :
    (fmi2DoStep step fmu t h).2 = (fmi3DoStep step gmu t h).2 ∧
      VersionsAgree binary .neither (fmi2DoStep step fmu t h).1 (fmi3DoStep step gmu t h).1 := by
  have own : fmi3DoStep step gmu t h = fmi2DoStep step gmu t h := rfl
  have both : SameButLog (fmi2DoStep step fmu t h).1 (fmi2DoStep step gmu t h).1 ∧
      (fmi2DoStep step fmu t h).2 = (fmi2DoStep step gmu t h).2 := by
    have stepped := agree.same.fmi2DoStep ignores t h
    split at stepped
    · rwa [fmi2DoStep_reset] at stepped
    · exact stepped
  have index := sameBinaryIndex_doStep step agree.allocated t h
  rw [own]
  refine ⟨both.2, both.1, ?_, index.allocated agree.allocated, ?_⟩
  · rw [fmi2DoStep]
    simp
  · rw [index.rx]
    exact agree.declared

theorem VersionsAgree.call (agree : VersionsAgree binary r fmu gmu) (ignores : step.IgnoresLog)
    (call : ImporterCall) :
    VersionsAgree binary (r.next binary call) (fmi2Call lib step fmu call).1
      (fmi3Call lib step binary gmu call).1 := by
  cases call with
  | setReals request => exact agree.setReals request
  | getReals request => exact (agree.getReals request).1
  | setTexts request =>
      cases binaries : (binaryEntries binary request).isEmpty with
      | true => exact agree.setStrings binaries
      | false => exact agree.setBinaries binaries
  | getTexts vrs => exact agree
  | doStep t h => exact (agree.doStep ignores t h).2

theorem VersionsAgree.calls (agree : VersionsAgree binary r fmu gmu) (ignores : step.IgnoresLog)
    (calls : List ImporterCall) :
    VersionsAgree binary (calls.foldl (ResetBy.next binary) r)
      (calls.foldl (fun fmu call => (fmi2Call lib step fmu call).1) fmu)
      (calls.foldl (fun fmu call => (fmi3Call lib step binary fmu call).1) gmu) := by
  induction calls generalizing r fmu gmu with
  | nil => exact agree
  | cons call calls ih => exact ih (agree.call ignores call)

theorem VersionsAgree.answer (agree : VersionsAgree binary r fmu gmu) (ignores : step.IgnoresLog)
    (call : ImporterCall) :
    Answer.Agree r (fmi2Call lib step fmu call).2 (fmi3Call lib step binary gmu call).2 := by
  cases call with
  | setReals request => trivial
  | getReals request => exact (agree.getReals request).2
  | setTexts request => trivial
  | doStep t h => exact ⟨agree.offered, (agree.doStep ignores t h).1⟩
  | getTexts vrs =>
      rw [fmi2Call, fmi3Call, Answer.Agree, agree.same.fmi2GetString]
      split
      next only =>
        apply fmi2GetString_reset agree.allocated
        rw [Bool.eq_false_iff, ne_eq, agree.reset, only]
        simp
      · exact sameTexts gmu vrs

end Runs

/-- After any calls, the versions answer the next call alike. -/
theorem versions_agree {lib : CLib} {step : FmuStep} {binary : UInt32 → Bool}
    {fmu gmu : FmuInstanceData} (same : SameButLog fmu gmu) (allocated : gmu.Allocated)
    (fresh : gmu.signalsReset = false)
    (declared : ∀ vr, binary vr = (gmu.binaryRx.lookup (vrIdx vr)).isSome)
    (ignores : step.IgnoresLog) (calls : List ImporterCall) (call : ImporterCall) :
    Answer.Agree (calls.foldl (ResetBy.next binary) .neither)
      (fmi2Call lib step (calls.foldl (fun fmu call => (fmi2Call lib step fmu call).1) fmu) call).2
      (fmi3Call lib step binary
        (calls.foldl (fun fmu call => (fmi3Call lib step binary fmu call).1) gmu) call).2 := by
  have start : VersionsAgree binary .neither fmu gmu :=
    ⟨same, by simp [fresh], allocated, declared⟩
  exact (start.calls ignores calls).answer ignores call

def loggedInstance (logged : List LogMessage) : FmuInstanceData :=
  { outputAndInput with
    logEnabled := true
    logCategories := 1
    logged
    directIndex := some oneValueMap }

theorem allocated_loggedInstance (logged : List LogMessage) :
    (loggedInstance logged).Allocated := by
  intro sv member binary stored
  rw [List.mem_singleton.mp member] at stored ⊢
  rw [← Option.some.inj stored]
  rfl

theorem idleStep_ignoresLog : idleStep.IgnoresLog :=
  fun _ _ _ _ same => ⟨same, rfl⟩

/-- Only FMI 3 logs a reference behind the map. The output can be got over both versions; after a
string is set it is gone for FMI 2. -/
theorem versions_agree_loggedInstance :
    let binary := fun vr => (outputAndInput.binaryRx.lookup (vrIdx vr)).isSome
    let fmu := loggedInstance []
    let gmu := loggedInstance [⟨0, "Debug", "FMU Model instantiated"⟩]
    let behind : ImporterCall := .getReals [(100, 1)]
    let setString : ImporterCall := .setTexts [(7, some ⟨[97], by decide⟩)]
    let calls2 := [behind, setString].foldl
      (fun fmu call => (fmi2Call greetingLib idleStep fmu call).1) fmu
    let calls3 := [behind, setString].foldl
      (fun fmu call => (fmi3Call greetingLib idleStep binary fmu call).1) gmu
    (calls2.logged = [] ∧ calls3.logged.length = 2 ∧
      fmi2GetString greetingLib calls2 [5] = [.null] ∧
      fmi3GetBinary greetingLib calls3 [(5, 0)] = [(2, .bytes [120, 0])]) ∧
    Answer.Agree .neither (fmi2Call greetingLib idleStep fmu (.getTexts [5])).2
      (fmi3Call greetingLib idleStep binary gmu (.getTexts [5])).2 ∧
    Answer.Agree .fmi2 (fmi2Call greetingLib idleStep calls2 (.getTexts [5])).2
      (fmi3Call greetingLib idleStep binary calls3 (.getTexts [5])).2 := by
  intro binary fmu gmu behind setString calls2 calls3
  have same : SameButLog fmu gmu := ⟨_, _, _, rfl⟩
  refine ⟨⟨by decide, by decide, by decide, by decide⟩, ?_, ?_⟩
  · exact versions_agree same (allocated_loggedInstance _) rfl (fun _ => rfl) idleStep_ignoresLog
      [] (.getTexts [5])
  · have only : (ResetBy.neither.next binary behind).next binary setString = .fmi2 := by decide
    rw [← only]
    exact versions_agree same (allocated_loggedInstance _) rfl (fun _ => rfl) idleStep_ignoresLog
      [behind, setString] (.getTexts [5])

end DseFmi.Fmu
