import DseFmi.FmiGateway.ParseFmi

/-!
# The session of a gateway

A session starts the process of its runtime. The command line of `simer` comes from the
variables the importer set, or else from the commands of the model description.
-/

namespace DseFmi.FmiGateway

open DseFmi.Fmu DseFmi.Generate

def exponentOf (x : Double) : Nat := (x.extractLsb' 52 11).toNat

def fractionOf (x : Double) : Nat := (x.extractLsb' 0 52).toNat

def nonNegative (x : Double) : Bool :=
  let nan := exponentOf x = 2047 ∧ fractionOf x ≠ 0
  let zero := exponentOf x = 0 ∧ fractionOf x = 0
  !nan && (!x.msb || zero)

/-- The integral part of a number that is not negative. One that does not fit, which C
leaves undefined, is behind the end of every vector. -/
def toSize (x : Double) : Nat :=
  let exponent := exponentOf x
  let significand := 2 ^ 52 + fractionOf x
  if exponent < 1023 then 0
  else if exponent ≤ 1075 then significand / 2 ^ (1075 - exponent)
  else significand * 2 ^ (exponent - 1075)

example : toSize 0x3FF8000000000000#64 = 1 := by decide

def maxCmdLength : Nat := 2048

def simerCmdIdx (i : Instance) : Nat :=
  match (i.fmu.scalarInput.lookup "1").bind i.fmu.getScalar with
  | some simerCmdSel => if nonNegative simerCmdSel then toSize simerCmdSel else 0
  | none => 0

/-- The command of the process, `none` for `NULL`. -/
def simerCmd (i : Instance) : Option CString :=
  let simerCmd := i.fmu.stringInput.lookup "0"
  if simerCmd = none ∨ simerCmd.map CString.bytes = some [] then
    match i.settings.cmds[simerCmdIdx i]? with
    | some cmd => some cmd
    | none => simerCmd
  else simerCmd

def printString : Option CString → List UInt8
  | some s => s.bytes
  | none => utf8 "(null)"

def simerExe : List UInt8 := utf8 "simer.exe "

/-- The command line of the process that is created. -/
def fmigatewayRunSimer (i : Instance) : List UInt8 :=
  (simerExe ++ printString (simerCmd i)).take (maxCmdLength - 1)

/-- The process of the runtime, when the startup command is done. -/
def fmigatewaySessionStart (i : Instance) : Option (List UInt8) :=
  match i.settings.runtimeType with
  | .simer => some (fmigatewayRunSimer i)
  | .legacy => none

structure CommandValues where
  command : CString
  selector : Double

def CommandValues.start : CommandValues := ⟨cString "", 0⟩

inductive ParameterCall where
  | command (text : CString)
  | selector (x : Double)

def ParameterCall.record (values : CommandValues) : ParameterCall → CommandValues
  | .command text => { values with command := text }
  | .selector x => { values with selector := x }

/-- The call of the importer, under the references of the model description. -/
def ParameterCall.run (lib : CLib) (xml : FmuXml) (command selector : UInt32)
    (fmu : FmuInstanceData) (call : ParameterCall) : FmuInstanceData :=
  match xml, call with
  | .fmi2 _, .command text => fmi2SetString lib fmu [(command, some text)]
  | .fmi3 _, .command text => fmi3SetString fmu [(command, some text)]
  | .fmi2 _, .selector x => fmi2SetReal fmu [(selector, x)]
  | .fmi3 _, .selector x => fmi3SetFloat64 fmu [(selector, x)]

def initialised (lib : CLib) (strtod : String → Double) (xml : FmuXml) (command selector : UInt32)
    (calls : List ParameterCall) : Instance :=
  let i := fmigatewayParseXml strtod xml
  { i with fmu := calls.foldl (ParameterCall.run lib xml command selector) i.fmu }

section Frame

variable {string scalar : String} {fmu : FmuInstanceData}

theorem Missing.of_same {gmu : FmuInstanceData} (missing : Missing string scalar fmu)
    (sameString : gmu.stringInput = fmu.stringInput)
    (sameScalar : gmu.scalarInput = fmu.scalarInput) : Missing string scalar gmu := by
  refine ⟨?_, ?_⟩
  · rw [sameString]
    exact missing.string
  · rw [sameScalar]
    exact missing.scalar

/-- Setting a real changes values, but no key. -/
theorem Missing.setReals (missing : Missing string scalar fmu) (errors : ErrorLog)
    (request : Request) : Missing string scalar (setReals errors fmu request) := by
  apply Missing.foldl _ _ missing
  intro fmu entry _ before
  unfold setReal
  cases direct : fmu.directIndex with
  | some di =>
      dsimp only
      unfold setDirect
      split
      · obtain ⟨logged, log⟩ := errors.fmuLog_eq fmu errors.error "Error" "Invalid direct index"
        rw [log]
        exact before.of_same rfl rfl
      · exact before.of_same rfl rfl
  | none =>
      dsimp only
      unfold setIndexed
      cases fmu.scalarInput.lookup (vrIdx entry.1) with
      | none => exact before
      | some p => exact before.of_same rfl rfl

theorem Missing.setString (missing : Missing string scalar fmu) (lib : CLib) {vr : UInt32}
    (other : vrIdx vr ≠ string) (value : Option CString) :
    Missing string scalar (setString lib fmu vr value) := by
  unfold Fmu.setString
  cases value with
  | none => exact missing
  | some text =>
      cases fmu.binaryRx.lookup (vrIdx vr) with
      | none => exact missing.hashmapSetString other text
      | some p => exact missing.of_same rfl rfl

theorem Missing.reset (missing : Missing string scalar fmu) :
    Missing string scalar (fmuDefaultSignalsReset fmu) := by
  unfold fmuDefaultSignalsReset
  split
  · exact missing.of_same rfl rfl
  · exact missing

/-- No call of the importer touches the keys, unless the command has one of them. -/
theorem Missing.run (missing : Missing string scalar fmu) (lib : CLib) (xml : FmuXml)
    {command : UInt32} (other : vrIdx command ≠ string) (selector : UInt32)
    (call : ParameterCall) :
    Missing string scalar (call.run lib xml command selector fmu) := by
  cases call with
  | command text =>
      cases xml with
      | fmi2 md => exact missing.reset.setString lib other (some text)
      | fmi3 md => exact missing.hashmapSetString other text
  | selector x =>
      cases xml with
      | fmi2 md => exact missing.setReals fmi2Errors [(selector, x)]
      | fmi3 md => exact missing.setReals fmi3Errors [(selector, x)]

/-- A session of a model description without the keys runs the first command. -/
theorem simerCmd_of_missing {i : Instance} (missing : Missing "0" "1" i.fmu) :
    simerCmd i = i.settings.cmds.head? := by
  have idx : simerCmdIdx i = 0 := by
    rw [simerCmdIdx, missing.scalar]
    rfl
  rw [simerCmd, missing.string, idx, ← List.head?_eq_getElem?]
  cases i.settings.cmds with
  | nil => rfl
  | cons cmd cmds => rfl

end Frame

end DseFmi.FmiGateway
