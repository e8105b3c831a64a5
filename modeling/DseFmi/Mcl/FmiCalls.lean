import DseFmi.Library.Protocol
import DseFmi.Mcl.Step

/-!
# The FMI calls of a model

The library of the runtime stands between a model and its adapter; within one step of the model
it may let the FMU do any number of steps. A function of the FMU that is missing is called all
the same, which ends the process; so do a failing instantiation and a failing initialisation,
which are fatal. The values that are got after the initialisation may fail, which is only logged.
-/

namespace DseFmi.Mcl

open DseFmi.Library

inductive FmiCall where
  | instantiate (created : Bool)
  | setupExperiment (rc : Int)
  | enterInitialization (rc : Int)
  | exitInitialization (rc : Int)
  | get (type : Fmi2Type) (rc : Int)
  | set (type : Fmi2Type) (rc : Int)
  | doStep (rc : Int)
  | terminate (rc : Int)
  | freeInstance
  deriving DecidableEq, Repr

/-- The entry of the function table a call goes through. -/
def FmiCall.entry : FmiCall → Nat
  | .instantiate _ => 0
  | .setupExperiment _ => 1
  | .enterInitialization _ => 2
  | .exitInitialization _ => 3
  | .get .real _ => 4
  | .get .integer _ => 5
  | .get .boolean _ => 6
  | .get .string _ => 7
  | .set .real _ => 8
  | .set .integer _ => 9
  | .set .boolean _ => 10
  | .set .string _ => 11
  | .doStep _ => 12
  | .terminate _ => 13
  | .freeInstance => 14

def Fmi2Adapter.loaded (adapter : Fmi2Adapter) (c : FmiCall) : Bool :=
  (adapter.vtable[c.entry]?.join).isSome

def FmuModel.loaded (m : FmuModel) (c : FmiCall) : Bool :=
  match m.adapter with
  | none => false
  | some adapter => adapter.loaded c

/-- A call for a group is a call of the FMU, a copy of a group is not. -/
def StepCall.fmiCall : StepCall × Int → Option FmiCall
  | (.set type _ _, rc) => some (.set type rc)
  | (.doStep, rc) => some (.doStep rc)
  | (.get type _ _, rc) => some (.get type rc)
  | (.marshalGroupOut, _) | (.marshalGroupIn, _) => none

def fmiCalls (log : List (StepCall × Int)) : List FmiCall := log.filterMap StepCall.fmiCall

/-- Enter and leave initialisation, with the calls that are made. -/
def callInitialization (library : FmuLibrary) (adapter : Fmi2Adapter) :
    Option Nat → Traced FmiCall Int
  | none => return einval
  | some inst => do
      Traced.guarded adapter.loaded [.enterInitialization (library.enterInitialization inst)]
      if library.enterInitialization inst > 0 then return library.enterInitialization inst
      else do
        Traced.guarded adapter.loaded [.exitInitialization (library.exitInitialization inst)]
        if library.exitInitialization inst > 0 then return library.exitInitialization inst
        else return 0

def callInit (env : Environment) (m : FmuModel) : Traced FmiCall (Int × FmuModel) := do
  let adapter ← Traced.silent m.adapter
  let library ← Traced.silent (env.dlopen m.path)
  let inst := library.instantiate m.name m.cosim m.guid m.resourceDir
  Traced.guarded adapter.loaded [.instantiate inst.isSome]
  let rc ← callInitialization library adapter inst
  return (rc, { m with adapter := some { adapter with fmi2Inst := inst } })

def callUnload (m : FmuModel) : Traced FmiCall Int := do
  let adapter ← Traced.silent m.adapter
  Traced.guarded adapter.loaded [.freeInstance]
  return 0

/-- The functions of the library that a model calls. -/
structure MclLibrary (σ V T τ : Type) extends MclStepper σ V T τ where
  load : FmuModel → Option (Int × FmuModel)
  init : FmuModel → Traced FmiCall (Int × FmuModel)
  unload : FmuModel → Traced FmiCall Int

/-- The functions that are called while a model is created. -/
def MclLibrary.loader {σ V T τ : Type} (mcl : MclLibrary σ V T τ) : MclLoader where
  load := mcl.load
  init m := (mcl.init m).result

/-- Steps of the adapter behind a run, one after the other; the status is that of the last. -/
def adapterSteps {σ V T τ : Type} (call : τ → StepState σ V T τ → StepRun σ V T τ)
    (endTimes : List τ) (run : StepRun σ V T τ) : StepRun σ V T τ :=
  endTimes.foldl (fun run endTime =>
    let next := call endTime run.state
    { next with log := run.log ++ next.log }) run

/-- The calls of the adapter that are documented. The signals are copied to the source vector
before the variables are set. Depending on the step size `mcl_step` lets the adapter do any number
of steps, and it returns 0 only when the last of them did. -/
structure MclLibrary.Documented {σ V T τ : Type} (mcl : MclLibrary σ V T τ) (env : Environment) :
    Prop where
  load : ∀ m, m.mcl.vtable = some .fmi2 → mcl.load m = some (fmi2mclLoad env m)
  init : ∀ m, m.mcl.vtable = some .fmi2 → mcl.init m = callInit env m
  unload : ∀ m, m.mcl.vtable = some .fmi2 → mcl.unload m = callUnload m
  marshalOut : ∀ call s, ∃ source, mcl.marshalOut call s = call { s with source }
  step : ∀ call stopTime s, ∃ endTimes rc,
    mcl.step call stopTime s = { adapterSteps call endTimes ⟨[], s, 0⟩ with rc } ∧
      (rc = 0 → (adapterSteps call endTimes ⟨[], s, 0⟩).rc = 0)
  marshalIn : ∀ call s, mcl.marshalIn call s = call s

structure Process (σ V T τ : Type) where
  model : FmuModel
  state : StepState σ V T τ
  modelTime : τ

section Driver

variable {σ V T τ : Type}

def loadModel (mcl : MclLibrary σ V T τ) (header : MarshalHeader) (doc : FmuYaml) :
    Option FmuModel := do
  let m ← mclCreate header doc
  let (rc, m) ← mcl.load m
  if rc ≠ 0 then none else some m

def initModel (mcl : MclLibrary σ V T τ) (m : FmuModel) : Traced FmiCall FmuModel := do
  let (rc, m) ← mcl.init m
  if rc ≠ 0 then Traced.stop else return m

variable (mcl : MclLibrary σ V T τ) (env : Environment) (header : MarshalHeader) (doc : FmuYaml)
  (vtable : Fmi2VTable σ T τ) (copy : MarshalCopy V T)
  (initial : FmuModel → StepState σ V T τ) (startTime : τ)

/-- `model_create`: the values of the FMU are got once, and that this fails is only logged. -/
def createProcess : Traced FmiCall (Process σ V T τ) := do
  let m ← Traced.silent (loadModel mcl header doc)
  let m ← initModel mcl m
  let m ← Traced.silent (startMeasurement env m)
  let run := mcl.marshalIn (fmi2mclMarshalIn vtable copy m.data.mgTable) (initial m)
  Traced.guarded m.loaded (fmiCalls run.log)
  return ⟨m, run.state, startTime⟩

/-- `model_step`, up to a call through a missing function. -/
def stepProcess [Sub τ] (stopTime : τ) (p : Process σ V T τ) :
    Traced FmiCall (Int × Process σ V T τ) := do
  let (run, modelTime) :=
    modelStep mcl.toMclStepper vtable copy p.model.data.mgTable p.state p.modelTime stopTime
  Traced.guarded p.model.loaded (fmiCalls run.log)
  return (run.rc, { p with state := run.state, modelTime })

def stepsProcess [Sub τ] : List τ → Process σ V T τ → Traced FmiCall (Int × Process σ V T τ)
  | [], p => return (0, p)
  | stopTime :: stopTimes, p => do
      let (rc, p) ← stepProcess mcl vtable copy stopTime p
      if rc ≠ 0 then return (rc, p)
      else stepsProcess stopTimes p

/-- `model_destroy`: the instance is freed; that it cannot be is fatal. -/
def destroyProcess (p : Process σ V T τ) : Traced FmiCall Unit := do
  let rc ← mcl.unload p.model
  if rc ≠ 0 then Traced.stop else return ()

/-- A model is created, makes its steps, and may be destroyed. -/
def runProcess [Sub τ] (stopTimes : List τ) (destroyed : Bool) :
    Traced FmiCall (Int × Process σ V T τ) := do
  let p ← createProcess mcl env header doc vtable copy initial startTime
  let (rc, p) ← stepsProcess mcl vtable copy stopTimes p
  if destroyed then destroyProcess mcl p
  return (rc, p)

end Driver

inductive FmiPhase where
  | start
  | instantiated
  | initialising
  | initialised
  | ready
  | setting
  | getting
  | halted
  | failed
  | fatal
  | freed
  deriving DecidableEq, Repr

/-- An instance is made and initialised once. A step of the model sets variables, lets the FMU do
steps and gets variables. After a step of the FMU that has failed there may be another one; after
another call that has failed the instance may only be freed, and nothing follows after that. -/
def fmiProtocol : Protocol FmiPhase FmiCall where
  next
    | .start, .instantiate created => some (if created then .instantiated else .fatal)
    | .instantiated, .enterInitialization rc => some (if rc > 0 then .fatal else .initialising)
    | .initialising, .exitInitialization rc => some (if rc > 0 then .fatal else .initialised)
    | .initialised, .get _ rc => some (if rc > 0 then .ready else .initialised)
    | .ready, .get _ rc | .setting, .get _ rc | .getting, .get _ rc =>
        some (if rc > 0 then .failed else .getting)
    | .initialised, .set _ rc | .ready, .set _ rc | .setting, .set _ rc | .getting, .set _ rc =>
        some (if rc > 0 then .failed else .setting)
    | .initialised, .doStep rc | .ready, .doStep rc | .setting, .doStep rc | .getting, .doStep rc
    | .halted, .doStep rc => some (if rc > 0 then .halted else .getting)
    | .initialised, .freeInstance | .ready, .freeInstance | .setting, .freeInstance
    | .getting, .freeInstance | .halted, .freeInstance | .failed, .freeInstance => some .freed
    | _, _ => none

/-- The phases in which variables may be set and got and the FMU may do a step. -/
def FmiPhase.steppable : FmiPhase → Prop
  | .initialised | .ready | .setting | .getting => True
  | _ => False

def FmiPhase.closable : FmiPhase → Prop
  | .initialised | .ready | .setting | .getting | .halted | .failed => True
  | _ => False

theorem FmiPhase.steppable.closable {phase : FmiPhase} (steppable : phase.steppable) :
    phase.closable := by
  cases phase <;> simp_all [FmiPhase.closable, FmiPhase.steppable]

theorem fmiProtocol_set {phase : FmiPhase} (steppable : phase.steppable) (type : Fmi2Type)
    (rc : Int) :
    fmiProtocol.next phase (.set type rc) = some (if rc > 0 then .failed else .setting) := by
  cases phase <;> first | rfl | cases steppable

theorem fmiProtocol_doStep {phase : FmiPhase} (open_ : phase.steppable ∨ phase = .halted)
    (rc : Int) :
    fmiProtocol.next phase (.doStep rc) = some (if rc > 0 then .halted else .getting) := by
  rcases open_ with steppable | rfl
  · cases phase <;> first | rfl | cases steppable
  · rfl

theorem fmiProtocol_get {phase : FmiPhase} (steppable : phase.steppable) (type : Fmi2Type)
    (rc : Int) :
    ∃ next, fmiProtocol.next phase (.get type rc) = some next ∧
      if rc > 0 then next.closable else next.steppable := by
  cases phase <;> first
    | exact steppable.elim
    | exact ⟨_, rfl, by split <;> simp [FmiPhase.closable, FmiPhase.steppable]⟩

theorem fmiProtocol_freeInstance {phase : FmiPhase} (closable : phase.closable) :
    fmiProtocol.next phase .freeInstance = some .freed := by
  cases phase <;> first | rfl | cases closable

section Runs

variable {σ V T τ : Type}

/-- The calls of a part of a step are allowed; an error it returns leads to other phases. -/
def StepRun.Leads (run : StepRun σ V T τ) (before later failed : FmiPhase → Prop) : Prop :=
  fmiProtocol.Leads before (fmiCalls run.log) fun phase =>
    if run.rc ≠ 0 then failed phase else later phase

variable {before middle later failed : FmiPhase → Prop}

theorem StepRun.Leads.andThen {run : StepRun σ V T τ}
    {next : StepState σ V T τ → StepRun σ V T τ} (first : run.Leads before middle failed)
    (second : ∀ s, (next s).Leads middle later failed) :
    (run.andThen next).Leads before later failed := by
  rw [StepRun.andThen]
  by_cases error : run.rc ≠ 0
  · rw [if_pos error]
    simpa only [StepRun.Leads, if_pos error] using first
  · simp only [StepRun.Leads, if_neg error] at first ⊢
    rw [fmiCalls, List.filterMap_append]
    exact first.append (second run.state)

theorem StepRun.Leads.cons {run : StepRun σ V T τ} {entry : StepCall × Int} {e : FmiCall}
    (leads : run.Leads middle later failed) (called : StepCall.fmiCall entry = some e)
    (allowed : fmiProtocol.Leads before [e] middle) :
    (run.after entry).Leads before later failed := by
  rw [StepRun.Leads, fmiCalls, StepRun.after, List.filterMap_cons_some called]
  exact allowed.append leads

/-- A loop over the groups stays in the phases its calls stay in. -/
theorem marshalGroups_leads {handles : MarshalDir → Bool}
    {call : Fmi2Type → Nat → MarshalGroup → StepState σ V T τ → StepState σ V T τ × Int}
    {event : Fmi2Type → Nat → MarshalGroup → StepCall} (made : Fmi2Type → Int → FmiCall)
    (calls : ∀ type i mg rc, StepCall.fmiCall (event type i mg, rc) = some (made type rc))
    (allowed : ∀ type rc, fmiProtocol.Leads before [made type rc] fun phase =>
      if rc > 0 then failed phase else before phase)
    (groups : List (MarshalGroup × Nat)) (s : StepState σ V T τ) :
    (marshalGroups handles call event groups s).Leads before before failed := by
  induction groups generalizing s with
  | nil => exact Protocol.Leads.nil
  | cons g groups ih =>
      obtain ⟨mg, i⟩ := g
      rw [marshalGroups]
      split
      · split
        next type typed =>
          rcases ran : call type i mg s with ⟨t, rc⟩
          dsimp only
          have made := allowed type rc
          split
          next error =>
            rw [StepRun.Leads, fmiCalls, List.filterMap_cons_some (calls type i mg rc)]
            simpa [error, ebadmsg] using made
          next passed =>
            refine (ih t).cons (calls type i mg rc) ?_
            simpa [passed] using made
        · exact ih s
      · exact ih s

variable {vtable : Fmi2VTable σ T τ} {copy : MarshalCopy V T} {table : List MarshalGroup}

theorem fmi2mclMarshalOut_leads (s : StepState σ V T τ) :
    (fmi2mclMarshalOut vtable copy table s).Leads FmiPhase.steppable FmiPhase.steppable
      FmiPhase.closable := by
  refine marshalGroups_leads .set (fun _ _ _ _ => rfl) ?_ table.zipIdx
    (marshalGroupOut copy table s)
  intro type rc
  apply Protocol.Leads.single
  intro phase steppable
  refine ⟨_, fmiProtocol_set steppable type rc, ?_⟩
  by_cases error : rc > 0 <;> simp [error, FmiPhase.steppable, FmiPhase.closable]

/-- Getting the values, in a step or after the initialisation. -/
theorem fmi2mclMarshalIn_leads
    (allowed : ∀ type rc, fmiProtocol.Leads before [.get type rc] fun phase =>
      if rc > 0 then failed phase else before phase) (s : StepState σ V T τ) :
    (fmi2mclMarshalIn vtable copy table s).Leads before before failed := by
  rw [fmi2mclMarshalIn]
  apply (marshalGroups_leads .get (fun _ _ _ _ => rfl) allowed table.zipIdx s).andThen
  intro t
  exact Protocol.Leads.nil

theorem get_leads (type : Fmi2Type) (rc : Int) :
    fmiProtocol.Leads FmiPhase.steppable [.get type rc] fun phase =>
      if rc > 0 then phase.closable else phase.steppable :=
  Protocol.Leads.single fun _ steppable => fmiProtocol_get steppable type rc

/-- The phases that the steps of the adapter may leave. -/
def AfterDoStep (rc : Int) (phase : FmiPhase) : Prop :=
  if rc ≠ 0 then phase = .halted else phase.steppable

/-- A further step of the FMU is allowed, also when the last one has failed. -/
theorem fmi2mclStep_leads [Sub τ] (endTime : τ) (s : StepState σ V T τ) (last : Int) :
    fmiProtocol.Leads (AfterDoStep last) (fmiCalls (fmi2mclStep vtable endTime s).log)
      (AfterDoStep (fmi2mclStep vtable endTime s).rc) := by
  have allowed (phase : FmiPhase) (right : AfterDoStep last phase) (rc : Int) :
      fmiProtocol.next phase (.doStep rc) = some (if rc > 0 then .halted else .getting) := by
    apply fmiProtocol_doStep
    unfold AfterDoStep at right
    split at right
    · exact .inr right
    · exact .inl right
  rw [fmi2mclStep]
  rcases vtable.doStep s.inst s.time (endTime - s.time) with ⟨inst, rc⟩
  by_cases error : rc > 0
  · simp only [if_pos error]
    apply Protocol.Leads.single
    intro phase right
    exact ⟨_, allowed phase right rc, by simp [AfterDoStep, error, ebadmsg]⟩
  · simp only [if_neg error]
    apply Protocol.Leads.single
    intro phase right
    exact ⟨_, allowed phase right rc, by simp [AfterDoStep, error, FmiPhase.steppable]⟩

theorem adapterSteps_leads [Sub τ] (endTimes : List τ) {run : StepRun σ V T τ}
    (leads : fmiProtocol.Leads before (fmiCalls run.log) (AfterDoStep run.rc)) :
    fmiProtocol.Leads before (fmiCalls (adapterSteps (fmi2mclStep vtable) endTimes run).log)
      (AfterDoStep (adapterSteps (fmi2mclStep vtable) endTimes run).rc) := by
  induction endTimes generalizing run with
  | nil => exact leads
  | cons endTime endTimes ih =>
      apply ih
      rw [fmiCalls, List.filterMap_append]
      exact leads.append (fmi2mclStep_leads endTime run.state run.rc)

variable {mcl : MclLibrary σ V T τ} {env : Environment}

theorem marshalOut_leads (documented : mcl.Documented env) (s : StepState σ V T τ) :
    (mcl.marshalOut (fmi2mclMarshalOut vtable copy table) s).Leads FmiPhase.steppable
      FmiPhase.steppable FmiPhase.closable := by
  obtain ⟨source, out⟩ := documented.marshalOut (fmi2mclMarshalOut vtable copy table) s
  rw [out]
  exact fmi2mclMarshalOut_leads _

theorem step_leads [Sub τ] (documented : mcl.Documented env) (stopTime : τ)
    (s : StepState σ V T τ) :
    (mcl.step (fmi2mclStep vtable) stopTime s).Leads FmiPhase.steppable FmiPhase.steppable
      FmiPhase.closable := by
  obtain ⟨endTimes, rc, steps, last⟩ := documented.step (fmi2mclStep vtable) stopTime s
  have nothing : fmiProtocol.Leads FmiPhase.steppable
      (fmiCalls (⟨[], s, 0⟩ : StepRun σ V T τ).log) (AfterDoStep 0) := Protocol.Leads.nil
  rw [steps]
  refine (adapterSteps_leads endTimes nothing).weaken (fun _ start => start) ?_
  intro phase right
  by_cases error : rc = 0
  · rw [AfterDoStep, if_neg (not_not.mpr (last error))] at right
    simpa [error] using right
  · rw [if_pos error]
    unfold AfterDoStep at right
    split at right
    · rw [right]
      trivial
    · exact right.closable

theorem modelStep_leads [Sub τ] (documented : mcl.Documented env) (s : StepState σ V T τ)
    (modelTime stopTime : τ) :
    (modelStep mcl.toMclStepper vtable copy table s modelTime stopTime).1.Leads FmiPhase.steppable
      FmiPhase.steppable FmiPhase.closable := by
  apply (marshalOut_leads documented s).andThen
  intro t
  apply (step_leads documented stopTime t).andThen
  intro u
  rw [documented.marshalIn]
  exact fmi2mclMarshalIn_leads get_leads u

/-- The phases that the steps of a model may leave, and the status that goes with them. -/
def AfterSteps (rc : Int) (phase : FmiPhase) : Prop :=
  if rc ≠ 0 then phase.closable else phase.steppable

theorem stepProcess_conforms [Sub τ] (documented : mcl.Documented env) (stopTime : τ)
    (p : Process σ V T τ) :
    (stepProcess mcl vtable copy stopTime p).Conforms fmiProtocol FmiPhase.steppable
      fun result phase => AfterSteps result.1 phase := by
  have leads : (modelStep mcl.toMclStepper vtable copy p.model.data.mgTable p.state p.modelTime
      stopTime).1.Leads FmiPhase.steppable FmiPhase.steppable FmiPhase.closable :=
    modelStep_leads documented p.state p.modelTime stopTime
  rw [stepProcess]
  generalize modelStep mcl.toMclStepper vtable copy p.model.data.mgTable p.state p.modelTime
    stopTime = result at leads ⊢
  obtain ⟨run, time⟩ := result
  refine (Traced.Conforms.guarded leads).bind ?_
  intro _ _
  refine Traced.Conforms.pure.weaken (fun _ start => start) ?_
  rintro result phase _ ⟨rfl, right⟩
  exact right

theorem stepsProcess_conforms [Sub τ] (documented : mcl.Documented env) (stopTimes : List τ)
    (p : Process σ V T τ) :
    (stepsProcess mcl vtable copy stopTimes p).Conforms fmiProtocol FmiPhase.steppable
      fun result phase => AfterSteps result.1 phase := by
  induction stopTimes generalizing p with
  | nil =>
      refine Traced.Conforms.pure.weaken (fun _ start => start) ?_
      rintro result phase _ ⟨rfl, steppable⟩
      exact steppable
  | cons stopTime stopTimes ih =>
      refine (stepProcess_conforms documented stopTime p).bind ?_
      rintro ⟨rc, q⟩ _
      dsimp only
      split
      next error =>
        refine Traced.Conforms.pure.weaken (fun _ start => start) ?_
        rintro result phase _ ⟨rfl, right⟩
        exact right
      next passed =>
        refine (ih q).weaken ?_ fun _ _ _ right => right
        intro phase right
        simpa [AfterSteps, passed] using right

theorem guarded_conforms {c : FmiCall} {here next : FmiPhase}
    (allowed : fmiProtocol.next here c = some next) (adapter : Fmi2Adapter) :
    (Traced.guarded adapter.loaded [c]).Conforms fmiProtocol (· = here) fun _ => (· = next) := by
  apply Traced.Conforms.guarded
  apply Protocol.Leads.single
  rintro _ rfl
  exact ⟨next, allowed, rfl⟩

theorem silent_conforms {α β : Type} {start : FmiPhase → Prop} {result : Option α}
    {rest : α → Traced FmiCall β} {later : β → FmiPhase → Prop}
    (then_ : ∀ a, result = some a → (rest a).Conforms fmiProtocol start later) :
    (Traced.silent result >>= rest).Conforms fmiProtocol start later := by
  refine (Traced.Conforms.silent result).bind ?_
  intro a returned
  exact (then_ a returned).weaken (fun _ right => right.2) fun _ _ _ right => right

/-- A value that is returned in a phase that is right for it. -/
theorem pure_conforms {α : Type} {here : FmiPhase} {a : α} {later : α → FmiPhase → Prop}
    (right : later a here) : (pure a : Traced FmiCall α).Conforms fmiProtocol (· = here) later := by
  refine Traced.Conforms.pure.weaken (fun _ start => start) ?_
  rintro _ _ _ ⟨rfl, rfl⟩
  exact right

theorem callInitialization_conforms (library : FmuLibrary) (adapter : Fmi2Adapter) (inst : Nat) :
    (callInitialization library adapter (some inst)).Conforms fmiProtocol (· = .instantiated)
      fun rc phase => rc = 0 → phase = .initialised := by
  rw [callInitialization]
  refine (guarded_conforms rfl adapter).bind ?_
  intro _ _
  split
  next error =>
    apply pure_conforms
    intro none_failed
    exact absurd none_failed (Int.ne_of_gt error)
  · refine (guarded_conforms rfl adapter).bind ?_
    intro _ _
    split
    next error =>
      apply pure_conforms
      intro none_failed
      exact absurd none_failed (Int.ne_of_gt error)
    · apply pure_conforms
      intro _
      rfl

/-- An instance that is initialised with the status 0 is in the phase for it. -/
theorem callInit_conforms (env : Environment) (m : FmuModel) :
    (callInit env m).Conforms fmiProtocol (· = .start) fun result phase =>
      result.1 = 0 → phase = .initialised := by
  rw [callInit]
  apply silent_conforms
  intro adapter _
  apply silent_conforms
  intro library _
  dsimp only
  refine (guarded_conforms rfl adapter).bind ?_
  intro _ _
  cases library.instantiate m.name m.cosim m.guid m.resourceDir with
  | none =>
      apply pure_conforms
      intro none_failed
      cases none_failed
  | some inst =>
      refine (callInitialization_conforms library adapter inst).bind ?_
      intro rc _
      refine Traced.Conforms.pure.weaken (fun _ start => start) ?_
      rintro _ _ _ ⟨rfl, right⟩
      exact right

theorem loadModel_vtable (documented : mcl.Documented env) {header : MarshalHeader} {doc : FmuYaml}
    {m : FmuModel} (loaded : loadModel mcl header doc = some m) : m.mcl.vtable = some .fmi2 := by
  obtain ⟨created, hcreated, load⟩ := Option.bind_eq_some_iff.mp loaded
  obtain ⟨parsed, hparsed, rfl⟩ := mclCreate_tabled hcreated
  obtain ⟨⟨rc, n⟩, opened, done⟩ := Option.bind_eq_some_iff.mp load
  rw [documented.load parsed.tabled hparsed.vtable, Option.some.injEq] at opened
  have kept := (fmi2mclLoad_adapterOnly env parsed.tabled).vtable
  rw [opened] at kept
  dsimp only at done
  split at done
  · cases done
  · cases done
    exact kept.trans hparsed.vtable

theorem initModel_conforms (documented : mcl.Documented env) {m : FmuModel}
    (vtable : m.mcl.vtable = some .fmi2) :
    (initModel mcl m).Conforms fmiProtocol (· = .start) fun _ phase => phase = .initialised := by
  rw [initModel, documented.init m vtable]
  refine (callInit_conforms env m).bind ?_
  rintro ⟨rc, n⟩ _
  dsimp only
  split
  · exact Traced.Conforms.stop
  next passed =>
    refine Traced.Conforms.pure.weaken (fun _ start => start) ?_
    rintro _ phase _ ⟨rfl, right⟩
    exact right (not_not.mp passed)

theorem createProcess_conforms (documented : mcl.Documented env) (header : MarshalHeader)
    (doc : FmuYaml) (initial : FmuModel → StepState σ V T τ) (startTime : τ) :
    (createProcess mcl env header doc vtable copy initial startTime).Conforms fmiProtocol
      (· = .start) fun _ => FmiPhase.steppable := by
  rw [createProcess]
  apply silent_conforms
  intro m loaded
  refine (initModel_conforms documented (loadModel_vtable documented loaded)).bind ?_
  intro m _
  apply silent_conforms
  intro m _
  have leads : (fmi2mclMarshalIn vtable copy m.data.mgTable (initial m)).Leads
      (· = .initialised) (· = .initialised) (· = .ready) := by
    apply fmi2mclMarshalIn_leads
    intro type rc
    apply Protocol.Leads.single
    rintro _ rfl
    refine ⟨_, rfl, ?_⟩
    by_cases error : rc > 0 <;> simp [error]
  dsimp only
  rw [documented.marshalIn]
  refine Traced.Conforms.bind (Traced.Conforms.guarded leads) ?_
  intro _ _
  refine Traced.Conforms.pure.weaken (fun _ start => start) ?_
  rintro _ phase _ ⟨_, right⟩
  split at right <;> simp [right, FmiPhase.steppable]

theorem destroyProcess_conforms (documented : mcl.Documented env) {p : Process σ V T τ}
    (vtable : p.model.mcl.vtable = some .fmi2) (rc : Int) :
    (destroyProcess mcl p).Conforms fmiProtocol (AfterSteps rc) fun _ phase => phase = .freed := by
  rw [destroyProcess, documented.unload p.model vtable]
  have freed (adapter : Fmi2Adapter) : (Traced.guarded adapter.loaded [.freeInstance]).Conforms
      fmiProtocol (AfterSteps rc) fun _ phase => phase = .freed := by
    apply Traced.Conforms.guarded
    apply Protocol.Leads.single
    intro phase right
    refine ⟨_, fmiProtocol_freeInstance ?_, rfl⟩
    unfold AfterSteps at right
    split at right
    · exact right
    · exact right.closable
  have unloaded : (callUnload p.model).Conforms fmiProtocol (AfterSteps rc) fun result phase =>
      result = 0 ∧ phase = .freed := by
    rw [callUnload]
    apply silent_conforms
    intro adapter _
    refine (freed adapter).bind ?_
    intro _ _
    exact pure_conforms ⟨rfl, rfl⟩
  refine unloaded.bind ?_
  intro result _
  split
  · exact Traced.Conforms.stop
  · exact Traced.Conforms.pure.weaken (fun _ start => start) fun _ _ _ right => right.2.2

end Runs

end DseFmi.Mcl
