import DseFmi.Mcl.FmiCalls

/-!
# The life-cycle of a model

The calls a model makes, from its creation over its steps to its destruction, follow the
life-cycle of an FMI 2 instance. A run that ends well has made the calls of a creation, of each
of its steps and of its destruction.
-/

namespace DseFmi.Mcl

open DseFmi.Library

section Runs

variable {σ V T τ : Type} {vtable : Fmi2VTable σ T τ} {copy : MarshalCopy V T}
  {table : List MarshalGroup} {mcl : MclLibrary σ V T τ} {env : Environment}

theorem guarded_single_result (adapter : Fmi2Adapter) (c : FmiCall) :
    (Traced.guarded adapter.loaded [c]).result = adapter.vtable[c.entry]?.join.map fun _ => () := by
  cases entry : adapter.vtable[c.entry]?.join <;> simp [Traced.guarded, Fmi2Adapter.loaded, entry]

theorem guarded_log {available : FmiCall → Bool} {events : List FmiCall} {u : Unit}
    (made : (Traced.guarded available events).result = some u) :
    (Traced.guarded available events).log = events := by
  rw [Traced.guarded] at made ⊢
  cases complete : events.all available with
  | true => exact List.takeWhile_eq_self_iff.mpr (List.all_eq_true.mp complete)
  | false => simp [complete] at made

theorem callInitialization_result (library : FmuLibrary) (adapter : Fmi2Adapter)
    (inst : Option Nat) :
    (callInitialization library adapter inst).result =
      fmi2Initialization library adapter inst := by
  cases inst with
  | none => rfl
  | some inst =>
      simp only [callInitialization, fmi2Initialization, Traced.bind_result,
        guarded_single_result, FmiCall.entry]
      cases adapter.vtable[2]?.join with
      | none => rfl
      | some entry =>
          by_cases entered : library.enterInitialization inst > 0
          · simp [entered]
          · simp only [if_neg entered, Traced.bind_result, guarded_single_result, FmiCall.entry]
            cases adapter.vtable[3]?.join with
            | none => rfl
            | some entry =>
                by_cases exited : library.exitInitialization inst > 0 <;> simp [exited]

theorem callInit_result (env : Environment) (m : FmuModel) :
    (callInit env m).result = fmi2mclInit env m := by
  unfold callInit fmi2mclInit
  simp only [Traced.bind_result, Traced.silent_result, guarded_single_result,
    callInitialization_result]
  cases m.adapter with
  | none => rfl
  | some adapter =>
      cases env.dlopen m.path with
      | none => rfl
      | some library =>
          simp only [Option.bind_some, Option.bind_eq_bind, FmiCall.entry]
          cases adapter.vtable[0]?.join with
          | none => rfl
          | some entry => rfl

theorem callInit_log {env : Environment} {m n : FmuModel}
    (initialised : (callInit env m).result = some (0, n)) :
    ∃ enter exit, (callInit env m).log =
      [.instantiate true, .enterInitialization enter, .exitInitialization exit] := by
  rw [callInit] at initialised ⊢
  simp only [Traced.bind_result, Option.bind_eq_some_iff] at initialised
  obtain ⟨adapter, present, library, opened, _, made, rc, returned, done⟩ := initialised
  obtain rfl : rc = 0 := congrArg Prod.fst (Option.some.inj done)
  rw [Traced.bind_log_of_some present, Traced.bind_log_of_some opened,
    Traced.bind_log_of_some made, Traced.bind_log_of_some returned, guarded_log made]
  generalize library.instantiate m.name m.cosim m.guid m.resourceDir = inst at returned ⊢
  cases inst with
  | none => cases returned
  | some inst =>
      rw [callInitialization] at returned ⊢
      simp only [Traced.bind_result, Option.bind_eq_some_iff] at returned
      obtain ⟨_, entered, returned⟩ := returned
      rw [Traced.bind_log_of_some entered, guarded_log entered]
      split at returned
      next error => exact absurd (Option.some.inj returned) (Int.ne_of_gt error)
      next passed =>
        simp only [Traced.bind_result, Option.bind_eq_some_iff] at returned
        obtain ⟨_, exited, returned⟩ := returned
        rw [if_neg passed, Traced.bind_log_of_some exited, guarded_log exited]
        refine ⟨library.enterInitialization inst, library.exitInitialization inst, ?_⟩
        split <;> rfl

theorem MclLibrary.Documented.loader (documented : mcl.Documented env) :
    mcl.loader.CallsAdapter env := by
  refine ⟨documented.load, ?_⟩
  intro m vtable
  show (mcl.init m).result = _
  rw [documented.init m vtable, callInit_result]

theorem initModel_result {m n : FmuModel} (started : (initModel mcl m).result = some n) :
    mcl.loader.init m = some (0, n) ∧ (initModel mcl m).log = (mcl.init m).log := by
  rw [initModel] at started ⊢
  rw [Traced.bind_result] at started
  obtain ⟨⟨rc, n'⟩, returned, done⟩ := Option.bind_eq_some_iff.mp started
  rw [Traced.bind_log_of_some returned]
  dsimp only at done ⊢
  split at done
  · cases done
  next passed =>
    cases done
    rw [if_neg passed]
    rw [not_not] at passed
    subst passed
    exact ⟨returned, List.append_nil _⟩

theorem startMeasurement_mcl {m n : FmuModel} (measured : startMeasurement env m = some n) :
    n.mcl = m.mcl := by
  unfold startMeasurement at measured
  split at measured
  · cases measured
    rfl
  · split at measured
    · cases measured
      rfl
    · cases measured

theorem modelCreate_eq (header : MarshalHeader) (doc : FmuYaml) :
    modelCreate mcl.loader env header doc = (loadModel mcl header doc).bind fun m =>
      (mcl.loader.init m).bind fun result =>
        if result.1 ≠ 0 then none else startMeasurement env result.2 := by
  simp only [modelCreate, mclLifeCycle, loadModel, Option.bind_eq_bind, Option.bind_assoc]
  congr 1
  funext m
  congr 1
  funext loaded
  split
  · rfl
  · simp only [Option.bind_some, Option.bind_assoc]
    congr 1
    funext initialised
    split <;> rfl

/-- The calls before the first step: the instance is made and initialised, and variables are got
up to the first that cannot be. -/
def StartCalls (table : List MarshalGroup) (calls : List FmiCall) : Prop :=
  ∃ enter exit log, calls =
      [.instantiate true, .enterInitialization enter, .exitInitialization exit] ++ fmiCalls log ∧
    log.map Prod.fst <+: getCalls table ++ [.marshalGroupIn]

structure Created (mcl : MclLibrary σ V T τ) (env : Environment) (header : MarshalHeader)
    (doc : FmuYaml) (startTime : τ) (p : Process σ V T τ) (calls : List FmiCall) : Prop where
  model : modelCreate mcl.loader env header doc = some p.model
  modelTime : p.modelTime = startTime
  vtable : p.model.mcl.vtable = some .fmi2
  start : StartCalls p.model.data.mgTable calls

theorem marshalIn_calls [Sub τ] (stopTime : τ) (s : StepState σ V T τ) :
    (fmi2mclMarshalIn vtable copy table s).log.map Prod.fst <+:
      getCalls table ++ [.marshalGroupIn] := by
  have attempt : fmi2mclMarshalIn vtable copy table s =
      .of (attemptCalls vtable copy table stopTime (getCalls table ++ [.marshalGroupIn]) s) :=
    fmi2mclMarshalIn_eq s
  rw [attempt]
  exact attempt_isPrefix _ _ _ s

theorem createProcess_created [Sub τ] (documented : mcl.Documented env) {header : MarshalHeader}
    {doc : FmuYaml} {initial : FmuModel → StepState σ V T τ} {startTime : τ} {p : Process σ V T τ}
    (created : (createProcess mcl env header doc vtable copy initial startTime).result = some p) :
    Created mcl env header doc startTime p
      (createProcess mcl env header doc vtable copy initial startTime).log := by
  rw [createProcess] at created ⊢
  simp only [Traced.bind_result, Option.bind_eq_some_iff] at created
  obtain ⟨m, loaded, n, initialised, m', measured, _, made, done⟩ := created
  cases done
  have loaded_vtable := loadModel_vtable documented loaded
  obtain ⟨returned, log⟩ := initModel_result initialised
  have init : (callInit env m).result = some (0, n) := by
    rw [← documented.init m loaded_vtable]
    exact returned
  obtain ⟨enter, exit, calls⟩ := callInit_log init
  rw [callInit_result] at init
  refine ⟨?_, rfl, ?_, ?_⟩
  · rw [modelCreate_eq, show loadModel mcl header doc = some m from loaded, Option.bind_some,
      returned]
    simpa using measured
  · rw [startMeasurement_mcl measured, (fmi2mclInit_adapterOnly init).vtable, loaded_vtable]
  · rw [Traced.bind_log_of_some loaded, Traced.bind_log_of_some initialised,
      Traced.bind_log_of_some measured, Traced.bind_log_of_some made, guarded_log made, log,
      documented.init m loaded_vtable, calls, documented.marshalIn]
    refine ⟨enter, exit, (fmi2mclMarshalIn vtable copy m'.data.mgTable (initial m')).log, ?_,
      marshalIn_calls startTime (initial m')⟩
    simp [Traced.silent]

/-- A step that is complete: all groups are set, the FMU does steps, and all groups are got. -/
structure CompleteStep (table : List MarshalGroup) (log : List (StepCall × Int)) : Prop where
  calls : ∃ count, log.map Prod.fst = (.marshalGroupOut :: setCalls table) ++
    (List.replicate count .doStep ++ (getCalls table ++ [.marshalGroupIn]))
  passed : ∀ entry ∈ log, entry.1 ≠ .doStep → entry.2 ≤ 0

theorem StepRun.andThen_complete {run : StepRun σ V T τ}
    {next : StepState σ V T τ → StepRun σ V T τ} (complete : (run.andThen next).rc = 0) :
    run.rc = 0 ∧ (next run.state).rc = 0 ∧ (run.andThen next).log =
      run.log ++ (next run.state).log := by
  rw [StepRun.andThen] at complete ⊢
  by_cases error : run.rc ≠ 0
  · rw [if_pos error] at complete
    exact absurd complete error
  · rw [if_neg error] at complete ⊢
    exact ⟨not_not.mp error, complete, rfl⟩

theorem attemptCalls_complete [Sub τ] {stopTime : τ} {calls : List StepCall}
    {s : StepState σ V T τ}
    (complete : (StepRun.of (attemptCalls vtable copy table stopTime calls s)).rc = 0) :
    (attemptCalls vtable copy table stopTime calls s).log.map Prod.fst = calls ∧
      ∀ entry ∈ (attemptCalls vtable copy table stopTime calls s).log, entry.2 ≤ 0 := by
  have passed : (attemptCalls vtable copy table stopTime calls s).error = none := by
    cases error : (attemptCalls vtable copy table stopTime calls s).error with
    | none => rfl
    | some rc => simp [StepRun.of, error, ebadmsg] at complete
  refine ⟨attempt_complete passed, ?_⟩
  intro entry member
  by_contra positive
  have failed := (attempt_error_iff calls s).mpr
    ⟨entry, member, decide_eq_true (Int.not_le.mp positive)⟩
  rw [attemptCalls] at passed
  simp [passed] at failed

theorem marshalOut_complete [Sub τ] (documented : mcl.Documented env) (stopTime : τ)
    {s : StepState σ V T τ}
    (complete : (mcl.marshalOut (fmi2mclMarshalOut vtable copy table) s).rc = 0) :
    (mcl.marshalOut (fmi2mclMarshalOut vtable copy table) s).log.map Prod.fst =
        .marshalGroupOut :: setCalls table ∧
      ∀ entry ∈ (mcl.marshalOut (fmi2mclMarshalOut vtable copy table) s).log, entry.2 ≤ 0 := by
  obtain ⟨source, out⟩ := documented.marshalOut (fmi2mclMarshalOut vtable copy table) s
  have attempt : fmi2mclMarshalOut vtable copy table { s with source } =
      .of (attemptCalls vtable copy table stopTime (.marshalGroupOut :: setCalls table)
        { s with source }) := fmi2mclMarshalOut_eq _
  rw [out, attempt] at complete ⊢
  exact attemptCalls_complete complete

theorem marshalIn_complete [Sub τ] (stopTime : τ) {s : StepState σ V T τ}
    (complete : (fmi2mclMarshalIn vtable copy table s).rc = 0) :
    (fmi2mclMarshalIn vtable copy table s).log.map Prod.fst =
        getCalls table ++ [.marshalGroupIn] ∧
      ∀ entry ∈ (fmi2mclMarshalIn vtable copy table s).log, entry.2 ≤ 0 := by
  have attempt : fmi2mclMarshalIn vtable copy table s =
      .of (attemptCalls vtable copy table stopTime (getCalls table ++ [.marshalGroupIn]) s) :=
    fmi2mclMarshalIn_eq s
  rw [attempt] at complete ⊢
  exact attemptCalls_complete complete

theorem fmi2mclStep_calls [Sub τ] (endTime : τ) (s : StepState σ V T τ) :
    (fmi2mclStep vtable endTime s).log.map Prod.fst = [.doStep] := by
  rw [fmi2mclStep]
  dsimp only
  split <;> rfl

theorem adapterSteps_calls [Sub τ] (endTimes : List τ) (run : StepRun σ V T τ) :
    (adapterSteps (fmi2mclStep vtable) endTimes run).log.map Prod.fst =
      run.log.map Prod.fst ++ List.replicate endTimes.length .doStep := by
  induction endTimes generalizing run with
  | nil => exact (List.append_nil _).symm
  | cons endTime endTimes ih =>
      refine (ih _).trans ?_
      rw [List.map_append, fmi2mclStep_calls, List.append_assoc, List.singleton_append,
        List.length_cons, List.replicate_succ]

theorem modelStep_complete [Sub τ] (documented : mcl.Documented env) {s : StepState σ V T τ}
    {modelTime stopTime : τ}
    (complete : (modelStep mcl.toMclStepper vtable copy table s modelTime stopTime).1.rc = 0) :
    CompleteStep table
        (modelStep mcl.toMclStepper vtable copy table s modelTime stopTime).1.log ∧
      (modelStep mcl.toMclStepper vtable copy table s modelTime stopTime).2 = stopTime := by
  refine ⟨?_, if_neg (not_not.mpr complete)⟩
  rw [modelStep] at complete ⊢
  obtain ⟨out, rest, log⟩ := StepRun.andThen_complete complete
  obtain ⟨_, got, log'⟩ := StepRun.andThen_complete rest
  dsimp only
  rw [log, log']
  rw [documented.marshalIn] at got ⊢
  generalize (mcl.marshalOut (fmi2mclMarshalOut vtable copy table) s).state = t at got ⊢
  obtain ⟨outCalls, outPassed⟩ := marshalOut_complete documented stopTime out
  obtain ⟨inCalls, inPassed⟩ := marshalIn_complete stopTime got
  obtain ⟨endTimes, rc, steps, _⟩ := documented.step (fmi2mclStep vtable) stopTime t
  have doSteps : (mcl.step (fmi2mclStep vtable) stopTime t).log.map Prod.fst =
      List.replicate endTimes.length .doStep := by
    rw [steps]
    exact adapterSteps_calls endTimes ⟨[], t, 0⟩
  refine ⟨⟨endTimes.length, ?_⟩, ?_⟩
  · rw [List.map_append, List.map_append, outCalls, doSteps, inCalls]
  · intro entry member other
    rcases List.mem_append.mp member with set | member
    · exact outPassed entry set
    · rcases List.mem_append.mp member with step | get
      · have made := List.mem_map_of_mem (f := Prod.fst) step
        rw [doSteps] at made
        exact absurd (List.eq_of_mem_replicate made) other
      · exact inPassed entry get

def CompleteSteps (table : List MarshalGroup) (count : Nat) (calls : List FmiCall) : Prop :=
  ∃ steps : List (List (StepCall × Int)), steps.length = count ∧
    calls = steps.flatMap fmiCalls ∧ ∀ log ∈ steps, CompleteStep table log

theorem CompleteSteps.nil : CompleteSteps table 0 [] := ⟨[], rfl, rfl, by simp⟩

theorem CompleteSteps.cons {log : List (StepCall × Int)} {count : Nat} {calls : List FmiCall}
    (step : CompleteStep table log) (others : CompleteSteps table count calls) :
    CompleteSteps table (count + 1) (fmiCalls log ++ calls) := by
  obtain ⟨steps, rfl, rfl, complete⟩ := others
  refine ⟨log :: steps, rfl, rfl, ?_⟩
  simpa [step] using complete

theorem stepProcess_made [Sub τ] (documented : mcl.Documented env) {stopTime : τ}
    {p q : Process σ V T τ} {rc : Int}
    (stepped : (stepProcess mcl vtable copy stopTime p).result = some (rc, q)) :
    q.model = p.model ∧ (rc = 0 → q.modelTime = stopTime ∧
      ∃ log, CompleteStep p.model.data.mgTable log ∧
        (stepProcess mcl vtable copy stopTime p).log = fmiCalls log) := by
  have complete (passed : (modelStep mcl.toMclStepper vtable copy p.model.data.mgTable p.state
      p.modelTime stopTime).1.rc = 0) := modelStep_complete documented passed
  rw [stepProcess] at stepped ⊢
  generalize modelStep mcl.toMclStepper vtable copy p.model.data.mgTable p.state p.modelTime
    stopTime = result at complete stepped ⊢
  obtain ⟨run, time⟩ := result
  dsimp only at complete stepped ⊢
  rw [Traced.bind_result] at stepped
  obtain ⟨_, made, returned⟩ := Option.bind_eq_some_iff.mp stepped
  cases returned
  rw [Traced.bind_log_of_some made, guarded_log made]
  refine ⟨rfl, ?_⟩
  intro passed
  obtain ⟨step, reached⟩ := complete passed
  exact ⟨reached, run.log, step, List.append_nil _⟩

/-- What steps leave: the model, and when all of them are complete their calls and the time. -/
structure StepsMade (p q : Process σ V T τ) (stopTimes : List τ) (rc : Int)
    (calls : List FmiCall) : Prop where
  model : q.model = p.model
  complete : rc = 0 → CompleteSteps p.model.data.mgTable stopTimes.length calls ∧
    q.modelTime = stopTimes.getLast?.getD p.modelTime

theorem stepsProcess_made [Sub τ] (documented : mcl.Documented env) {stopTimes : List τ}
    {p q : Process σ V T τ} {rc : Int}
    (stepped : (stepsProcess mcl vtable copy stopTimes p).result = some (rc, q)) :
    StepsMade p q stopTimes rc (stepsProcess mcl vtable copy stopTimes p).log := by
  induction stopTimes generalizing p with
  | nil =>
      cases stepped
      exact ⟨rfl, fun _ => ⟨.nil, rfl⟩⟩
  | cons stopTime stopTimes ih =>
      rw [stepsProcess] at stepped ⊢
      rw [Traced.bind_result] at stepped
      obtain ⟨⟨first, middle⟩, here, rest⟩ := Option.bind_eq_some_iff.mp stepped
      obtain ⟨model, complete⟩ := stepProcess_made documented here
      rw [Traced.bind_log_of_some here]
      dsimp only at rest ⊢
      split at rest
      next error =>
        cases rest
        exact ⟨model, fun passed => absurd passed error⟩
      next passed =>
        rw [if_neg passed]
        obtain ⟨reached, log, step, calls⟩ := complete (not_not.mp passed)
        have others := ih rest
        refine ⟨others.model.trans model, ?_⟩
        intro all_passed
        obtain ⟨steps, time⟩ := others.complete all_passed
        rw [model] at steps
        refine ⟨?_, ?_⟩
        · rw [calls]
          exact .cons step steps
        · have final : (stopTime :: stopTimes).getLast? =
              some (stopTimes.getLast?.getD stopTime) := List.getLast?_cons
          rw [time, reached, final]
          rfl

theorem callUnload_result {m : FmuModel} {rc : Int} (unloaded : (callUnload m).result = some rc) :
    rc = 0 ∧ (callUnload m).log = [.freeInstance] := by
  rw [callUnload] at unloaded ⊢
  simp only [Traced.bind_result, Option.bind_eq_some_iff] at unloaded
  obtain ⟨adapter, present, _, made, returned⟩ := unloaded
  rw [Traced.bind_log_of_some present, Traced.bind_log_of_some made, guarded_log made]
  exact ⟨(Option.some.inj returned).symm, rfl⟩

theorem destroyProcess_log (documented : mcl.Documented env) {p : Process σ V T τ}
    (vtable : p.model.mcl.vtable = some .fmi2) {u : Unit}
    (destroyed : (destroyProcess mcl p).result = some u) :
    (destroyProcess mcl p).log = [.freeInstance] := by
  rw [destroyProcess, documented.unload p.model vtable] at destroyed ⊢
  rw [Traced.bind_result] at destroyed
  obtain ⟨rc, unloaded, _⟩ := Option.bind_eq_some_iff.mp destroyed
  obtain ⟨rfl, calls⟩ := callUnload_result unloaded
  rw [Traced.bind_log_of_some unloaded, calls]
  rfl

theorem runProcess_conforms [Sub τ] (documented : mcl.Documented env) (header : MarshalHeader)
    (doc : FmuYaml) (initial : FmuModel → StepState σ V T τ) (startTime : τ) (stopTimes : List τ)
    (destroyed : Bool) :
    (runProcess mcl env header doc vtable copy initial startTime stopTimes destroyed).Conforms
      fmiProtocol (· = .start) fun result phase =>
        if destroyed then phase = .freed else AfterSteps result.1 phase := by
  rw [runProcess]
  refine (createProcess_conforms documented header doc initial startTime).bind ?_
  intro p created
  have vtable := (createProcess_created documented created).vtable
  refine (stepsProcess_conforms documented stopTimes p).bind ?_
  rintro ⟨rc, q⟩ stepped
  have model := (stepsProcess_made documented stepped).model
  cases destroyed with
  | true =>
      refine (destroyProcess_conforms documented (model ▸ vtable) rc).bind ?_
      intro _ _
      exact Traced.Conforms.pure.weaken (fun _ start => start) fun _ _ _ right => right.2
  | false =>
      refine Traced.Conforms.pure.weaken (fun _ start => start) ?_
      rintro _ _ _ ⟨rfl, right⟩
      exact right

structure LifeCycle (mcl : MclLibrary σ V T τ) (env : Environment) (header : MarshalHeader)
    (doc : FmuYaml) (startTime : τ) (stopTimes : List τ) (destroyed : Bool)
    (run : Traced FmiCall (Int × Process σ V T τ)) : Prop where
  /-- The protocol allows every call, whether the process ends early or not. -/
  allowed : ∃ phase, fmiProtocol.after .start run.log = some phase ∧ ∀ rc p,
    run.result = some (rc, p) → if destroyed then phase = .freed else AfterSteps rc phase
  /-- The experiment is not set up and the FMU is not terminated. -/
  never : ∀ rc, .setupExperiment rc ∉ run.log ∧ .terminate rc ∉ run.log
  /-- The instance is freed once, at the end. -/
  freed : .freeInstance ∈ run.log →
    ∃ earlier, run.log = earlier ++ [.freeInstance] ∧ .freeInstance ∉ earlier
  /-- A run whose steps are complete has made the calls of each of them, and has reached the last
  time. -/
  complete : ∀ p, run.result = some (0, p) →
    modelCreate mcl.loader env header doc = some p.model ∧
      p.modelTime = stopTimes.getLast?.getD startTime ∧
      ∃ start steps, StartCalls p.model.data.mgTable start ∧
        CompleteSteps p.model.data.mgTable stopTimes.length steps ∧
        run.log = start ++ steps ++ if destroyed then [.freeInstance] else []

theorem runProcess_complete [Sub τ] (documented : mcl.Documented env) {header : MarshalHeader}
    {doc : FmuYaml} {initial : FmuModel → StepState σ V T τ} {startTime : τ} {stopTimes : List τ}
    {destroyed : Bool} {p : Process σ V T τ}
    (complete : (runProcess mcl env header doc vtable copy initial startTime stopTimes
      destroyed).result = some (0, p)) :
    modelCreate mcl.loader env header doc = some p.model ∧
      p.modelTime = stopTimes.getLast?.getD startTime ∧
      ∃ start steps, StartCalls p.model.data.mgTable start ∧
        CompleteSteps p.model.data.mgTable stopTimes.length steps ∧
        (runProcess mcl env header doc vtable copy initial startTime stopTimes destroyed).log =
          start ++ steps ++ if destroyed then [.freeInstance] else [] := by
  rw [runProcess] at complete ⊢
  simp only [Traced.bind_result, Option.bind_eq_some_iff] at complete
  obtain ⟨q, created, ⟨rc, r⟩, stepped, complete⟩ := complete
  have start := createProcess_created documented created
  have made := stepsProcess_made documented stepped
  rw [Traced.bind_log_of_some created, Traced.bind_log_of_some stepped]
  have ended : rc = 0 ∧ r = p ∧ (do
      if destroyed then destroyProcess mcl r
      return (rc, r) : Traced FmiCall (Int × Process σ V T τ)).log =
        if destroyed then [.freeInstance] else [] := by
    cases destroyed with
    | true =>
        obtain ⟨_, freed, returned⟩ :=
          Option.bind_eq_some_iff.mp ((Traced.bind_result _ _).symm.trans complete)
        cases returned
        refine ⟨rfl, rfl, ?_⟩
        simp only [if_true]
        rw [Traced.bind_log_of_some freed,
          destroyProcess_log documented (made.model ▸ start.vtable) freed]
        rfl
    | false =>
        cases complete
        exact ⟨rfl, rfl, rfl⟩
  obtain ⟨rfl, rfl, calls⟩ := ended
  obtain ⟨steps, time⟩ := made.complete rfl
  rw [made.model]
  refine ⟨start.model, ?_, _, _, start.start, steps, ?_⟩
  · rw [time, start.modelTime]
  · rw [calls, List.append_assoc]

/-- For every FMU, environment and document, and any number of steps, the calls of a model follow
the FMI life-cycle, up to the one that ends the process if there is one. -/
theorem runProcess_lifeCycle [Sub τ] (documented : mcl.Documented env) (header : MarshalHeader)
    (doc : FmuYaml) (vtable : Fmi2VTable σ T τ) (copy : MarshalCopy V T)
    (initial : FmuModel → StepState σ V T τ) (startTime : τ) (stopTimes : List τ)
    (destroyed : Bool) :
    LifeCycle mcl env header doc startTime stopTimes destroyed
      (runProcess mcl env header doc vtable copy initial startTime stopTimes destroyed) := by
  have conforms : (runProcess mcl env header doc vtable copy initial startTime stopTimes
      destroyed).Conforms fmiProtocol (· = .start) fun result phase =>
        if destroyed then phase = .freed else AfterSteps result.1 phase :=
    runProcess_conforms documented header doc initial startTime stopTimes destroyed
  obtain ⟨phase, reached, right⟩ := conforms .start rfl
  refine ⟨⟨phase, reached, fun rc p => right (rc, p)⟩, ?_, ?_, ?_⟩
  · intro rc
    refine ⟨Protocol.not_mem_of_after ?_ reached, Protocol.not_mem_of_after ?_ reached⟩
    · intro here
      cases here <;> rfl
    · intro here
      cases here <;> rfl
  · apply Protocol.final_of_after ?_ reached
    intro here next leads other
    have : next = .freed := by
      cases here <;> cases leads <;> rfl
    rw [this]
    cases other <;> rfl
  · exact fun p complete => runProcess_complete documented complete

end Runs

/-- A library that lets the FMU do steps of the size 1. -/
def unitLibrary (σ V T : Type) (env : Environment) : MclLibrary σ V T Nat where
  marshalOut call := call
  step call stopTime s :=
    adapterSteps call (List.range' (s.time + 1) (stopTime - s.time)) ⟨[], s, 0⟩
  marshalIn call := call
  load m := some (fmi2mclLoad env m)
  init := callInit env
  unload := callUnload

theorem unitLibrary_documented (σ V T : Type) (env : Environment) :
    (unitLibrary σ V T env).Documented env where
  load _ _ := rfl
  init _ _ := rfl
  unload _ _ := rfl
  marshalOut _ s := ⟨s.source, rfl⟩
  step _ stopTime s := ⟨List.range' (s.time + 1) (stopTime - s.time), _, rfl, id⟩
  marshalIn _ _ := rfl

/-- An FMU that adds up the time of its steps. -/
def clockVTable : Fmi2VTable Nat (List Nat) Nat where
  set _ inst _ _ _ := (inst, 0)
  get _ inst _ _ _ := ((inst, [inst]), 0)
  doStep inst _ stepSize := (inst + stepSize, 0)

def clockCopy : MarshalCopy (List Nat) (List Nat) where
  groupOut _ source _ := source
  groupIn _ target _ := target

def clockYaml : FmuYaml :=
  stubYaml [⟨some "clock", ⟨some 1, some "clock", some "Real", some "output", none⟩⟩] []

/-- Three steps, none and two. -/
theorem runProcess_lifeCycle_clock :
    LifeCycle (unitLibrary Nat (List Nat) (List Nat) stubEnvironment) stubEnvironment
        marshalHeader clockYaml 0 [3, 3, 5] true
        (runProcess (unitLibrary Nat (List Nat) (List Nat) stubEnvironment) stubEnvironment
          marshalHeader clockYaml clockVTable clockCopy (fun _ => ⟨0, [], fun _ => [], 0⟩) 0
          [3, 3, 5] true) ∧
      ((runProcess (unitLibrary Nat (List Nat) (List Nat) stubEnvironment) stubEnvironment
        marshalHeader clockYaml clockVTable clockCopy (fun _ => ⟨0, [], fun _ => [], 0⟩) 0
        [3, 3, 5] true).result.map fun result => (result.1, result.2.state.source)) =
          some (0, [5]) := by
  refine ⟨?_, ?_⟩
  · exact runProcess_lifeCycle (unitLibrary_documented _ _ _ stubEnvironment) marshalHeader
      clockYaml clockVTable clockCopy _ 0 [3, 3, 5] true
  · decide

end DseFmi.Mcl
