import DseFmi.FmiGateway.ScriptParameters

/-!
# The life cycle of a gateway

An importer creates a gateway, initialises it, steps it and destroys it. The gateway runs
the commands of the user, starts the processes of its session and connects to the simulation
bus. A trace records what it does, and the surroundings answer for the platform.
-/

namespace DseFmi.FmiGateway

open DseFmi.Fmu DseFmi.Generate

/-- Windows does not distinguish names that have the same upper case. -/
inductive Platform where
  | unix
  | win32 (upcase : String → String)

/-- The name of a variable as the platform compares it. -/
def Platform.key : Platform → String → String
  | .unix, name => name
  | .win32 upcase, name => upcase name

/-- The variables that `getenv` finds and those that a command is started with. -/
structure Environ where
  own : HashMap CString
  inherited : HashMap CString

/-- A platform refuses an empty name and one with an equals sign. -/
def ValidName (name : String) : Prop := name ≠ "" ∧ '=' ∉ name.toList

instance (name : String) : Decidable (ValidName name) := inferInstanceAs (Decidable (_ ∧ _))

def getenv (platform : Platform) (environ : Environ) (name : String) : Option CString :=
  environ.own.lookup (platform.key name)

/-- On Windows the C runtime does not see what `SetEnvironmentVariable` sets. -/
def fmigatewaySetenv (platform : Platform) (environ : Environ) (name : String) (value : CString) :
    Environ :=
  if ValidName name then
    let inherited := environ.inherited.insert (platform.key name) value
    match platform with
    | .unix => ⟨environ.own.insert name value, inherited⟩
    | .win32 _ => ⟨environ.own, inherited⟩
  else environ

/-- `(int)x`; one that does not fit, which C leaves undefined, becomes the least number. -/
def toInt (x : Double) : Int :=
  let n : Int := if x.msb then -(toSize x : Int) else toSize x
  if -2147483648 ≤ n ∧ n ≤ 2147483647 then n else -2147483648

def getFmuEnvValue (fmu : FmuInstanceData) (e : FmiGatewayParameter) : Option CString :=
  match e.type with
  | .string => fmu.stringInput.lookup e.vref
  | .real => (scalarValue fmu e.vref).map fun value => cString (itoa (toInt value))

/-- The value of the FMU, or else the default. -/
def envText (fmu : FmuInstanceData) (e : FmiGatewayParameter) : CString :=
  (getFmuEnvValue fmu e).getD e.defaultValue

def setEnvarRound (platform : Platform) (fmu : FmuInstanceData) (environ : Environ)
    (e : FmiGatewayParameter) : Environ :=
  match getenv platform environ e.name with
  | some _ => environ
  | none => fmigatewaySetenv platform environ e.name (envText fmu e)

def setEnvar (platform : Platform) (fmu : FmuInstanceData) (envar : List FmiGatewayParameter)
    (environ : Environ) : Environ :=
  envar.foldl (setEnvarRound platform fmu) environ

inductive Process where
  | simer (cmd : List UInt8)
  | transport
  | simbus
  | model (i : Nat)
  deriving DecidableEq, Repr

inductive Script where
  | startup
  | shutdown
  deriving DecidableEq, Repr

/-- A command that is executed, with the values of the FMU at that moment and the
environment of the command. -/
structure Execution where
  script : Script
  cmd : String
  fmu : FmuInstanceData
  environ : HashMap CString

/-- A process is signalled to stop or found to have ended. -/
inductive Event where
  | parallelize
  | execute (x : Execution)
  | launch (p : Process)
  | stop (p : Process)
  | ended (p : Process)
  | gwSetup (rc : Int)
  | gwSync
  | gwExit
  | teardown

inductive FmiGatewayState where
  | created
  | initialized
  | running
  | terminated
  deriving DecidableEq, Repr

structure FmiGatewaySession where
  transport : Bool
  simbus : Bool
  wModels : Option Nat
  deriving DecidableEq, Repr

structure Scripts where
  startupCmd : Option String
  shutdownCmd : Option String
  envar : List FmiGatewayParameter

structure GatewaySettings where
  runtime : Settings
  session : Option FmiGatewaySession
  scripts : Scripts

structure GatewayInstance where
  fmu : FmuInstanceData
  settings : GatewaySettings
  state : FmiGatewayState
  simerProcess : Option Process
  environ : Environ
  trace : List Event

/-- What the platform, the files beside the model description and the simulation bus
answer. -/
structure Surroundings where
  platform : Platform
  startupFile : Option String
  shutdownFile : Option String
  startupResult : Int
  shutdownResult : Int
  setupResult : Int
  created : Process → Bool
  alive : Process → Bool
  ended : Process → Bool
  indexed : FmuInstanceData → FmuInstanceData

def GatewayInstance.emit (gw : GatewayInstance) (events : List Event) : GatewayInstance :=
  { gw with trace := gw.trace ++ events }

def FmiGatewaySession.models (session : FmiGatewaySession) : List Process :=
  (List.range (session.wModels.getD 0)).map .model

def FmiGatewaySession.processes (session : FmiGatewaySession) : List Process :=
  (if session.transport then [.transport] else []) ++ (if session.simbus then [.simbus] else []) ++
    session.models

def fmigatewayStartModels (env : Surroundings) (session : Option FmiGatewaySession) : List Event :=
  match env.platform, session with
  | .win32 _, some session => (session.processes.filter env.created).map .launch
  | _, _ => []

def signalModels (env : Surroundings) (state : FmiGatewayState) (session : FmiGatewaySession) :
    List Event :=
  if session.wModels = none then []
  else
    (if state = .initialized then [.gwSync] else []) ++ session.models.map .stop ++
      (if session.models.all env.alive then [.gwSync] else [])

def checkShutdown (env : Surroundings) (p : Process) : List Event :=
  if env.ended p then [.ended p] else []

/-- The processes are stopped after the gateway left the simulation. -/
def fmigatewayShutdownModels (env : Surroundings) (state : FmiGatewayState)
    (session : FmiGatewaySession) : List Event :=
  match env.platform with
  | .unix => [.gwExit]
  | .win32 _ =>
      signalModels env state session ++ [.gwExit] ++ session.models.flatMap (checkShutdown env) ++
        (if session.simbus then
          if env.ended .simbus then [.ended .simbus] else [.stop .simbus] else []) ++
        (if session.transport then [.stop .transport] else [])

/-- The process is kept when it could be created. -/
def runSimer (env : Surroundings) (gw : GatewayInstance) : GatewayInstance :=
  match env.platform with
  | .unix => gw
  | .win32 _ =>
      let p := Process.simer (fmigatewayRunSimer ⟨gw.fmu, gw.settings.runtime⟩)
      if env.created p then { gw.emit [.launch p] with simerProcess := some p } else gw

def stopSimer (env : Surroundings) (gw : GatewayInstance) : GatewayInstance :=
  match env.platform, gw.simerProcess with
  | .win32 _, some p =>
      { gw.emit [if env.ended p then .ended p else .stop p] with simerProcess := none }
  | _, _ => gw

def runCmd (env : Surroundings) (gw : GatewayInstance) (script : Script) (cmd : Option String)
    (result : Int) : GatewayInstance × Int :=
  match cmd with
  | none => (gw, 0)
  | some cmd =>
      let environ := setEnvar env.platform gw.fmu gw.settings.scripts.envar gw.environ
      let gw := { gw with environ }
      (gw.emit [.execute ⟨script, cmd, gw.fmu, environ.inherited⟩], result)

/-- The file beside the model description is preferred. -/
def startupOf (env : Surroundings) (settings : GatewaySettings) : Option String :=
  env.startupFile.or settings.scripts.startupCmd

def shutdownOf (env : Surroundings) (settings : GatewaySettings) : Option String :=
  env.shutdownFile.or settings.scripts.shutdownCmd

def sessionStart (env : Surroundings) (gw : GatewayInstance) : GatewayInstance × Int :=
  let (gw, rc) := runCmd env gw .startup (startupOf env gw.settings) env.startupResult
  if rc ≠ 0 then (gw, rc)
  else
    match gw.settings.runtime.runtimeType with
    | .simer => (runSimer env gw, 0)
    | .legacy => (gw.emit (fmigatewayStartModels env gw.settings.session), 0)

def endScripts (env : Surroundings) (gw : GatewayInstance) : GatewayInstance :=
  let (gw, rc) := runCmd env gw .shutdown (shutdownOf env gw.settings) env.shutdownResult
  if rc ≠ 0 then gw else gw.emit [.teardown]

def sessionEnd (env : Surroundings) (gw : GatewayInstance) : GatewayInstance :=
  if gw.state = .created then gw.emit [.teardown]
  else
    match gw.settings.runtime.runtimeType with
    | .simer => endScripts env (stopSimer env (gw.emit [.gwExit]))
    | .legacy =>
        match gw.settings.session with
        | none => gw.emit [.gwExit]
        | some session =>
            endScripts env (gw.emit (fmigatewayShutdownModels env gw.state session))

def fmuCreate (fmu : FmuInstanceData) (settings : GatewaySettings) (outside : HashMap CString) :
    GatewayInstance where
  fmu
  settings
  state := .created
  simerProcess := none
  environ := ⟨outside, outside⟩
  trace := [.parallelize]

def fmuInit (env : Surroundings) (gw : GatewayInstance) : GatewayInstance × Int :=
  let (gw, rc) := sessionStart env gw
  if rc ≠ 0 then (gw, rc)
  else
    let gw := gw.emit [.gwSetup env.setupResult]
    if env.setupResult ≠ 0 then (gw, env.setupResult)
    else ({ gw with fmu := env.indexed gw.fmu, state := .initialized }, 0)

def fmuStep (gw : GatewayInstance) : GatewayInstance :=
  let gw := if gw.state = .initialized then { gw with state := .running } else gw
  gw.emit [.gwSync]

def fmuDestroy (env : Surroundings) (gw : GatewayInstance) : GatewayInstance :=
  { sessionEnd env gw with state := .terminated }

inductive ImporterCall where
  | set (change : FmuInstanceData → FmuInstanceData)
  | step

def GatewayInstance.set (gw : GatewayInstance) (change : FmuInstanceData → FmuInstanceData) :
    GatewayInstance :=
  { gw with fmu := change gw.fmu }

def ImporterCall.run (gw : GatewayInstance) : ImporterCall → GatewayInstance
  | .set change => gw.set change
  | .step => fmuStep gw

def configured (fmu : FmuInstanceData) (settings : GatewaySettings) (outside : HashMap CString)
    (before : List (FmuInstanceData → FmuInstanceData)) : GatewayInstance :=
  before.foldl GatewayInstance.set (fmuCreate fmu settings outside)

/-- A run of a gateway, whatever the initialisation returns. -/
def gatewayRun (env : Surroundings) (fmu : FmuInstanceData) (settings : GatewaySettings)
    (outside : HashMap CString) (before : List (FmuInstanceData → FmuInstanceData))
    (calls : List ImporterCall) : GatewayInstance :=
  let gw := (fmuInit env (configured fmu settings outside before)).1
  fmuDestroy env (calls.foldl ImporterCall.run gw)

end DseFmi.FmiGateway
