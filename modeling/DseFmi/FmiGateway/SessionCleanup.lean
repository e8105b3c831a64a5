import DseFmi.FmiGateway.Session

/-!
# Cleaning up after a session

At the end of a run the processes of the session are stopped, the gateway has left the
simulation and the scripts have run, unless the run fails between the start of the session
and its initialisation, has no session, or its last command fails.
-/

namespace DseFmi.FmiGateway

open DseFmi.Fmu DseFmi.Generate

def Event.isExit : Event → Bool
  | .gwExit => true
  | _ => false

def Event.isTeardown : Event → Bool
  | .teardown => true
  | _ => false

def Executed (script : Script) (cmd : String) (trace : List Event) : Prop :=
  ∃ x, Event.execute x ∈ trace ∧ x.script = script ∧ x.cmd = cmd

/-- The startup command is absent or succeeds. -/
def Started (env : Surroundings) (settings : GatewaySettings) : Prop :=
  startupOf env settings = none ∨ env.startupResult = 0

/-- A trace at whose end nothing of the session is left. -/
structure CleanedUp (env : Surroundings) (settings : GatewaySettings) (trace : List Event) :
    Prop where
  stopped : ∀ p before after, trace = before ++ Event.launch p :: after →
    Event.stop p ∈ after ∨ Event.ended p ∈ after
  exited : Event.gwSetup 0 ∈ trace → trace.countP Event.isExit = 1
  notExited : Event.gwSetup 0 ∉ trace → trace.countP Event.isExit = 0
  shutdown : Started env settings → ∀ cmd ∈ shutdownOf env settings, Executed .shutdown cmd trace
  teardown : trace.countP Event.isTeardown = 1

def launchedProcesses (env : Surroundings) (gw : GatewayInstance) : List Process :=
  match env.platform with
  | .unix => []
  | .win32 _ =>
      match gw.settings.runtime.runtimeType with
      | .simer => [Process.simer (fmigatewayRunSimer ⟨gw.fmu, gw.settings.runtime⟩)].filter
        env.created
      | .legacy =>
          ((gw.settings.session.map FmiGatewaySession.processes).getD []).filter env.created

/-- The runs that clean up. A run whose session started sets up the gateway for a session of
its own and ends with a command that succeeds, or has nothing to clean up. -/
def CleansUp (env : Surroundings) (gw : GatewayInstance) : Prop :=
  Started env gw.settings →
    if env.setupResult = 0 then
      (gw.settings.runtime.runtimeType = .simer ∨ gw.settings.session ≠ none) ∧
        (shutdownOf env gw.settings = none ∨ env.shutdownResult = 0)
    else launchedProcesses env gw = [] ∧ shutdownOf env gw.settings = none

def Event.quiet : Event → Bool
  | .parallelize => true
  | .execute x => x.script = .startup
  | .gwSync => true
  | _ => false

def Event.isLaunch : Event → Bool
  | .launch _ => true
  | _ => false

def Event.isSetup : Event → Bool
  | .gwSetup _ => true
  | _ => false

/-- The trace of a run: what is launched, the result of the setup and the end. -/
structure TraceOf (launched : List Process) (setup : Option Int) (ending trace : List Event) :
    Prop where
  parts : ∃ start steps : List Event, start.all Event.quiet = true ∧ steps.all Event.quiet = true ∧
    trace = start ++ launched.map Event.launch ++ setup.toList.map Event.gwSetup ++ steps ++ ending
  no_launch : ∀ e ∈ ending, e.isLaunch = false
  no_setup : ∀ e ∈ ending, e.isSetup = false

section Quiet

variable {events : List Event} (quiet : events.all Event.quiet = true)

include quiet

theorem countP_quiet {p : Event → Bool} (loud : ∀ e, e.quiet = true → p e = false) :
    events.countP p = 0 := by
  apply List.countP_eq_zero.mpr
  intro e member
  rw [loud e (List.all_eq_true.mp quiet e member)]
  exact Bool.false_ne_true

end Quiet

theorem isExit_of_quiet (e : Event) (quiet : e.quiet = true) : e.isExit = false := by
  cases e with
  | gwExit => cases quiet
  | _ => rfl

theorem isTeardown_of_quiet (e : Event) (quiet : e.quiet = true) : e.isTeardown = false := by
  cases e with
  | teardown => cases quiet
  | _ => rfl

theorem not_executed_quiet {events : List Event} (quiet : events.all Event.quiet = true)
    (cmd : String) : ¬ Executed .shutdown cmd events := by
  rintro ⟨x, member, shutdown, _⟩
  have startup : x.script = .startup :=
    of_decide_eq_true (List.all_eq_true.mp quiet _ member)
  cases startup.symm.trans shutdown

theorem executed_append (script : Script) (cmd : String) (events more : List Event) :
    Executed script cmd (events ++ more) ↔
      Executed script cmd events ∨ Executed script cmd more := by
  constructor
  · rintro ⟨x, member, same⟩
    cases List.mem_append.mp member with
    | inl here => exact .inl ⟨x, here, same⟩
    | inr there => exact .inr ⟨x, there, same⟩
  · rintro (⟨x, member, same⟩ | ⟨x, member, same⟩)
    · exact ⟨x, List.mem_append_left _ member, same⟩
    · exact ⟨x, List.mem_append_right _ member, same⟩

section TraceOf

variable {launched : List Process} {setup : Option Int} {ending trace : List Event}

theorem TraceOf.countP (shape : TraceOf launched setup ending trace) {p : Event → Bool}
    (quiet : ∀ e, e.quiet = true → p e = false) (launch : ∀ q, p (.launch q) = false)
    (setups : ∀ rc, p (.gwSetup rc) = false) : trace.countP p = ending.countP p := by
  obtain ⟨start, steps, quiet_start, quiet_steps, rfl⟩ := shape.parts
  have no_launch : (launched.map Event.launch).countP p = 0 := by
    apply List.countP_eq_zero.mpr
    intro e member
    obtain ⟨q, _, rfl⟩ := List.mem_map.mp member
    rw [launch q]
    exact Bool.false_ne_true
  have no_setup : (setup.toList.map Event.gwSetup).countP p = 0 := by
    apply List.countP_eq_zero.mpr
    intro e member
    obtain ⟨rc, _, rfl⟩ := List.mem_map.mp member
    rw [setups rc]
    exact Bool.false_ne_true
  rw [List.countP_append, List.countP_append, List.countP_append, List.countP_append,
    countP_quiet quiet_start quiet, countP_quiet quiet_steps quiet, no_launch, no_setup]
  omega

theorem TraceOf.mem (shape : TraceOf launched setup ending trace) {e : Event}
    (member : e ∈ trace) :
    e.quiet = true ∨ (∃ p ∈ launched, e = .launch p) ∨ (∃ rc ∈ setup, e = .gwSetup rc) ∨
      e ∈ ending := by
  obtain ⟨start, steps, quiet_start, quiet_steps, rfl⟩ := shape.parts
  rcases List.mem_append.mp member with member | ended
  · rcases List.mem_append.mp member with member | stepped
    · rcases List.mem_append.mp member with member | set
      · rcases List.mem_append.mp member with started | launch
        · exact .inl (List.all_eq_true.mp quiet_start e started)
        · obtain ⟨p, listed, same⟩ := List.mem_map.mp launch
          exact .inr (.inl ⟨p, listed, same.symm⟩)
      · obtain ⟨rc, stored, same⟩ := List.mem_map.mp set
        exact .inr (.inr (.inl ⟨rc, Option.mem_toList.mp stored, same.symm⟩))
    · exact .inl (List.all_eq_true.mp quiet_steps e stepped)
  · exact .inr (.inr (.inr ended))

theorem TraceOf.mem_setup (shape : TraceOf launched setup ending trace) :
    Event.gwSetup 0 ∈ trace ↔ setup = some 0 := by
  constructor
  · intro member
    rcases shape.mem member with quiet | ⟨p, _, same⟩ | ⟨rc, stored, same⟩ | ended
    · cases quiet
    · cases same
    · cases same
      exact stored
    · cases shape.no_setup _ ended
  · rintro rfl
    obtain ⟨start, steps, _, _, rfl⟩ := shape.parts
    simp

theorem TraceOf.mem_ending (shape : TraceOf launched setup ending trace) {e : Event}
    {p : Process} (stops : e = .stop p ∨ e = .ended p) (member : e ∈ trace) : e ∈ ending := by
  rcases stops with rfl | rfl
  · rcases shape.mem member with quiet | ⟨q, _, same⟩ | ⟨rc, _, same⟩ | ended
    · cases quiet
    · cases same
    · cases same
    · exact ended
  · rcases shape.mem member with quiet | ⟨q, _, same⟩ | ⟨rc, _, same⟩ | ended
    · cases quiet
    · cases same
    · cases same
    · exact ended

theorem TraceOf.executed (shape : TraceOf launched setup ending trace) (cmd : String) :
    Executed .shutdown cmd trace ↔ Executed .shutdown cmd ending := by
  obtain ⟨start, steps, quiet_start, quiet_steps, rfl⟩ := shape.parts
  have no_launch : ¬ Executed .shutdown cmd (launched.map Event.launch) := by
    rintro ⟨x, member, _⟩
    obtain ⟨q, _, same⟩ := List.mem_map.mp member
    cases same
  have no_setup : ¬ Executed .shutdown cmd (setup.toList.map Event.gwSetup) := by
    rintro ⟨x, member, _⟩
    obtain ⟨rc, _, same⟩ := List.mem_map.mp member
    cases same
  rw [executed_append, executed_append, executed_append, executed_append]
  have quiet_start := not_executed_quiet quiet_start cmd
  have quiet_steps := not_executed_quiet quiet_steps cmd
  tauto

theorem TraceOf.ending_after (shape : TraceOf launched setup ending trace) {p : Process}
    {before after : List Event} (split : trace = before ++ Event.launch p :: after) :
    p ∈ launched ∧ ∃ between, after = between ++ ending := by
  have listed : p ∈ launched := by
    have member : Event.launch p ∈ trace := by
      rw [split]
      exact List.mem_append_right _ List.mem_cons_self
    rcases shape.mem member with quiet | ⟨q, listed, same⟩ | ⟨rc, _, same⟩ | ended
    · cases quiet
    · cases same
      exact listed
    · cases same
    · cases shape.no_launch _ ended
  refine ⟨listed, ?_⟩
  obtain ⟨start, steps, _, _, rfl⟩ := shape.parts
  rcases List.append_eq_append_iff.mp split with ⟨rest, _, same⟩ | ⟨rest, _, same⟩
  · have ended : Event.launch p ∈ ending := by
      rw [same]
      exact List.mem_append_right _ List.mem_cons_self
    cases shape.no_launch _ ended
  · cases rest with
    | nil =>
        have ended : Event.launch p ∈ [] ++ ending := same ▸ List.mem_cons_self
        cases shape.no_launch _ ended
    | cons e rest =>
        cases same
        exact ⟨rest, rfl⟩

theorem TraceOf.stopped_iff (shape : TraceOf launched setup ending trace) :
    (∀ p before after, trace = before ++ Event.launch p :: after →
      Event.stop p ∈ after ∨ Event.ended p ∈ after) ↔
    ∀ p ∈ launched, Event.stop p ∈ ending ∨ Event.ended p ∈ ending := by
  constructor
  · intro stopped p listed
    have member : Event.launch p ∈ trace := by
      obtain ⟨start, steps, _, _, rfl⟩ := shape.parts
      simp [listed]
    obtain ⟨before, after, split⟩ := List.append_of_mem member
    have later : ∀ e ∈ after, e ∈ trace := by
      intro e there
      rw [split]
      exact List.mem_append_right _ (List.mem_cons_of_mem _ there)
    cases stopped p before after split with
    | inl stop => exact .inl (shape.mem_ending (.inl rfl) (later _ stop))
    | inr ended => exact .inr (shape.mem_ending (.inr rfl) (later _ ended))
  · intro ends p before after split
    obtain ⟨listed, between, rfl⟩ := shape.ending_after split
    cases ends p listed with
    | inl stop => exact .inl (List.mem_append_right _ stop)
    | inr ended => exact .inr (List.mem_append_right _ ended)

theorem TraceOf.cleanedUp_iff (shape : TraceOf launched setup ending trace) (env : Surroundings)
    (settings : GatewaySettings) :
    CleanedUp env settings trace ↔
      (∀ p ∈ launched, Event.stop p ∈ ending ∨ Event.ended p ∈ ending) ∧
        (ending.countP Event.isExit = if setup = some 0 then 1 else 0) ∧
        (Started env settings → ∀ cmd ∈ shutdownOf env settings, Executed .shutdown cmd ending) ∧
        ending.countP Event.isTeardown = 1 := by
  have exits := shape.countP isExit_of_quiet (fun _ => rfl) (fun _ => rfl)
  have teardowns := shape.countP isTeardown_of_quiet (fun _ => rfl) (fun _ => rfl)
  constructor
  · intro clean
    refine ⟨shape.stopped_iff.mp clean.stopped, ?_, ?_, teardowns ▸ clean.teardown⟩
    · rw [← exits]
      split
      next succeeded =>
        exact clean.exited (shape.mem_setup.mpr succeeded)
      next failed =>
        exact clean.notExited fun member => failed (shape.mem_setup.mp member)
    · intro started cmd configured
      exact (shape.executed cmd).mp (clean.shutdown started cmd configured)
  · rintro ⟨stops, exit, shutdown, teardown⟩
    refine ⟨shape.stopped_iff.mpr stops, ?_, ?_, ?_, teardowns.trans teardown⟩
    · intro member
      rw [exits, exit, if_pos (shape.mem_setup.mp member)]
    · intro absent
      rw [exits, exit, if_neg fun succeeded => absent (shape.mem_setup.mpr succeeded)]
    · intro started cmd configured
      exact (shape.executed cmd).mpr (shutdown started cmd configured)

end TraceOf

section RunCmd

variable (env : Surroundings) (gw : GatewayInstance) (script : Script) (cmd : Option String)
  (result : Int)

def executedEvents : List Event :=
  cmd.toList.map fun cmd =>
    .execute ⟨script, cmd, gw.fmu,
      (setEnvar env.platform gw.fmu gw.settings.scripts.envar gw.environ).inherited⟩

theorem runCmd_frame :
    let gw' := (runCmd env gw script cmd result).1
    gw'.trace = gw.trace ++ executedEvents env gw script cmd ∧ gw'.fmu = gw.fmu ∧
      gw'.settings = gw.settings ∧ gw'.state = gw.state ∧ gw'.simerProcess = gw.simerProcess := by
  cases cmd with
  | none => exact ⟨(List.append_nil _).symm, rfl, rfl, rfl, rfl⟩
  | some cmd => exact ⟨rfl, rfl, rfl, rfl, rfl⟩

theorem runCmd_result :
    (runCmd env gw script cmd result).2 = 0 ↔ cmd = none ∨ result = 0 := by
  cases cmd with
  | none => simp [runCmd]
  | some cmd => simp [runCmd]

theorem executed_executedEvents (text : String) (configured : text ∈ cmd) :
    Executed script text (executedEvents env gw script cmd) := by
  cases cmd with
  | none => cases configured
  | some cmd =>
      cases configured
      exact ⟨_, List.mem_singleton.mpr rfl, rfl, rfl⟩

end RunCmd

structure SessionStarted (gw gw' : GatewayInstance) (launched : List Process) : Prop where
  settings : gw'.settings = gw.settings
  state : gw'.state = gw.state
  trace : ∃ executed : List Event, executed.all Event.quiet = true ∧
    gw'.trace = gw.trace ++ executed ++ launched.map Event.launch
  process : gw.settings.runtime.runtimeType = .simer → gw'.simerProcess.toList = launched

theorem executedEvents_quiet (env : Surroundings) (gw : GatewayInstance) (cmd : Option String) :
    (executedEvents env gw .startup cmd).all Event.quiet = true := by
  cases cmd with
  | none => rfl
  | some cmd => rfl

theorem runSimer_launched (env : Surroundings) {gw : GatewayInstance}
    (simer : gw.settings.runtime.runtimeType = .simer) (no_process : gw.simerProcess = none) :
    let gw' := runSimer env gw
    gw'.settings = gw.settings ∧ gw'.state = gw.state ∧
      gw'.trace = gw.trace ++ (launchedProcesses env gw).map Event.launch ∧
      gw'.simerProcess.toList = launchedProcesses env gw := by
  simp only [runSimer, launchedProcesses, simer]
  cases env.platform with
  | unix => exact ⟨rfl, rfl, (List.append_nil _).symm, congrArg Option.toList no_process⟩
  | win32 upcase =>
      dsimp only
      split
      next created =>
        rw [List.filter_cons_of_pos created]
        exact ⟨rfl, rfl, rfl, rfl⟩
      next failed =>
        rw [List.filter_cons_of_neg failed]
        exact ⟨rfl, rfl, (List.append_nil _).symm, congrArg Option.toList no_process⟩

theorem fmigatewayStartModels_launched (env : Surroundings) {gw : GatewayInstance}
    (legacy : gw.settings.runtime.runtimeType = .legacy) :
    fmigatewayStartModels env gw.settings.session =
      (launchedProcesses env gw).map Event.launch := by
  simp only [fmigatewayStartModels, launchedProcesses, legacy]
  cases env.platform with
  | unix => rfl
  | win32 upcase =>
      cases gw.settings.session with
      | none => rfl
      | some session => rfl

theorem launchedProcesses_congr (env : Surroundings) {gw gw' : GatewayInstance}
    (fmu : gw'.fmu = gw.fmu) (settings : gw'.settings = gw.settings) :
    launchedProcesses env gw' = launchedProcesses env gw := by
  simp only [launchedProcesses, fmu, settings]

theorem sessionStart_cases (env : Surroundings) {gw : GatewayInstance}
    (no_process : gw.simerProcess = none) :
    let gw' := (sessionStart env gw).1
    let rc := (sessionStart env gw).2
    (¬ Started env gw.settings ∧ rc ≠ 0 ∧ SessionStarted gw gw' []) ∨
      (Started env gw.settings ∧ rc = 0 ∧ SessionStarted gw gw' (launchedProcesses env gw)) := by
  obtain ⟨trace, fmu, settings, state, process⟩ :=
    runCmd_frame env gw .startup (startupOf env gw.settings) env.startupResult
  have result := runCmd_result env gw .startup (startupOf env gw.settings) env.startupResult
  have quiet := executedEvents_quiet env gw (startupOf env gw.settings)
  unfold sessionStart
  generalize runCmd env gw .startup (startupOf env gw.settings) env.startupResult = ran at *
  obtain ⟨gw₁, rc⟩ := ran
  dsimp only at *
  have no_process₁ : gw₁.simerProcess = none := process.trans no_process
  split
  next failed =>
    refine .inl ⟨fun started => failed (result.mpr started), failed, settings, state, ?_, ?_⟩
    · exact ⟨_, quiet, trace.trans (List.append_nil _).symm⟩
    · exact fun _ => congrArg Option.toList no_process₁
  next succeeded =>
    have started : Started env gw.settings := result.mp (not_not.mp succeeded)
    have launched := launchedProcesses_congr env fmu settings
    cases type : gw₁.settings.runtime.runtimeType with
    | simer =>
        obtain ⟨same_settings, same_state, launches, kept⟩ :=
          runSimer_launched env type no_process₁
        rw [launched] at launches kept
        refine .inr ⟨started, rfl, same_settings.trans settings, same_state.trans state, ?_, ?_⟩
        · exact ⟨_, quiet, launches.trans (by rw [trace])⟩
        · exact fun _ => kept
    | legacy =>
        refine .inr ⟨started, rfl, settings, state, ?_, ?_⟩
        · refine ⟨_, quiet, ?_⟩
          show gw₁.trace ++ fmigatewayStartModels env gw₁.settings.session = _
          rw [fmigatewayStartModels_launched env type, launched, trace]
        · intro simer
          rw [← settings, type] at simer
          cases simer

structure RunTo (env : Surroundings) (gw gw' : GatewayInstance) (launched : List Process)
    (setup : Option Int) : Prop where
  settings : gw'.settings = gw.settings
  created : gw'.state = .created ↔ setup ≠ some 0
  trace : ∃ start steps : List Event, start.all Event.quiet = true ∧ steps.all Event.quiet = true ∧
    gw'.trace = start ++ launched.map Event.launch ++ setup.toList.map Event.gwSetup ++ steps
  process : gw.settings.runtime.runtimeType = .simer → gw'.simerProcess.toList = launched

theorem fmuInit_cases (env : Surroundings) {gw : GatewayInstance} (created : gw.state = .created)
    (no_process : gw.simerProcess = none) (quiet : gw.trace.all Event.quiet = true) :
    let gw' := (fmuInit env gw).1
    (¬ Started env gw.settings ∧ RunTo env gw gw' [] none) ∨
      (Started env gw.settings ∧
        RunTo env gw gw' (launchedProcesses env gw) (some env.setupResult)) := by
  have session := sessionStart_cases env no_process
  unfold fmuInit
  generalize sessionStart env gw = ran at *
  obtain ⟨gw₁, rc⟩ := ran
  rcases session with ⟨not_started, failed, start⟩ | ⟨started, succeeded, start⟩
  · obtain ⟨executed, quiet_executed, trace⟩ := start.trace
    dsimp only at *
    rw [if_pos failed]
    refine .inl ⟨not_started, start.settings, ?_, ?_, start.process⟩
    · exact ⟨fun _ => by simp, fun _ => start.state.trans created⟩
    · refine ⟨gw.trace ++ executed, [], ?_, rfl, ?_⟩
      · rw [List.all_append, quiet, quiet_executed]
        rfl
      · simpa using trace
  · obtain ⟨executed, quiet_executed, trace⟩ := start.trace
    dsimp only at *
    rw [if_neg (not_not.mpr succeeded)]
    have listed : gw₁.trace ++ [.gwSetup env.setupResult] =
        gw.trace ++ executed ++ (launchedProcesses env gw).map Event.launch ++
          (some env.setupResult).toList.map Event.gwSetup ++ [] := by
      rw [trace, List.append_nil]
      rfl
    have quiet_start : (gw.trace ++ executed).all Event.quiet = true := by
      rw [List.all_append, quiet, quiet_executed]
      rfl
    split
    next failed =>
      refine .inr ⟨started, start.settings, ?_, ⟨_, [], quiet_start, rfl, listed⟩, start.process⟩
      exact ⟨fun _ same => failed (Option.some.inj same), fun _ => start.state.trans created⟩
    next set =>
      refine .inr ⟨started, start.settings, ?_, ⟨_, [], quiet_start, rfl, listed⟩, start.process⟩
      exact ⟨(nomatch ·), fun other => absurd (congrArg some (not_not.mp set)) other⟩

theorem RunTo.calls {env : Surroundings} {gw gw' : GatewayInstance} {launched : List Process}
    {setup : Option Int} (run : RunTo env gw gw' launched setup) (calls : List ImporterCall) :
    RunTo env gw (calls.foldl ImporterCall.run gw') launched setup := by
  induction calls generalizing gw' with
  | nil => exact run
  | cons call calls ih =>
      apply ih
      cases call with
      | set change => exact ⟨run.settings, run.created, run.trace, run.process⟩
      | step =>
          obtain ⟨start, steps, quiet_start, quiet_steps, trace⟩ := run.trace
          have stepped : (fmuStep gw').trace = gw'.trace ++ [.gwSync] ∧
              (fmuStep gw').settings = gw'.settings ∧
              (fmuStep gw').simerProcess = gw'.simerProcess ∧
              ((fmuStep gw').state = .created ↔ gw'.state = .created) := by
            unfold fmuStep
            split
            next initialized =>
              exact ⟨rfl, rfl, rfl, (nomatch ·), fun state => nomatch initialized.symm.trans state⟩
            · exact ⟨rfl, rfl, rfl, Iff.rfl⟩
          obtain ⟨step, settings, process, state⟩ := stepped
          refine ⟨settings.trans run.settings, state.trans run.created, ?_, ?_⟩
          · refine ⟨start, steps ++ [.gwSync], quiet_start, ?_, ?_⟩
            · rw [List.all_append, quiet_steps]
              rfl
            · show (fmuStep gw').trace = _
              rw [step, trace, List.append_assoc]
          · intro simer
            exact (congrArg Option.toList process).trans (run.process simer)

/-- The events that stop what was launched and leave the simulation. -/
structure Closes (launched : List Process) (closing : List Event) : Prop where
  stops : ∀ p ∈ launched, Event.stop p ∈ closing ∨ Event.ended p ∈ closing
  exit : closing.countP Event.isExit = 1
  teardown : closing.countP Event.isTeardown = 0
  no_launch : ∀ e ∈ closing, e.isLaunch = false
  no_setup : ∀ e ∈ closing, e.isSetup = false

def Event.signals : Event → Bool
  | .stop _ => true
  | .ended _ => true
  | .gwSync => true
  | _ => false

theorem closes_of_signals {launched : List Process} (before after : List Event)
    (before_signals : before.all Event.signals = true)
    (after_signals : after.all Event.signals = true)
    (stops : ∀ p ∈ launched, Event.stop p ∈ before ++ after ∨ Event.ended p ∈ before ++ after) :
    Closes launched (before ++ [.gwExit] ++ after) := by
  have member {e : Event} : e ∈ before ++ [.gwExit] ++ after ↔
      e = .gwExit ∨ e ∈ before ++ after := by
    simp only [List.mem_append, List.mem_singleton]
    tauto
  have signal : ∀ e ∈ before ++ after, e.signals = true := by
    apply List.all_eq_true.mp
    rw [List.all_append, before_signals, after_signals]
    rfl
  have none (p : Event → Bool) (silent : ∀ e, e.signals = true → p e = false) {events : List Event}
      (all : events.all Event.signals = true) : events.countP p = 0 := by
    apply List.countP_eq_zero.mpr
    intro e listed
    rw [silent e (List.all_eq_true.mp all e listed)]
    exact Bool.false_ne_true
  have exits : ∀ e : Event, e.signals = true → e.isExit = false := by
    intro e
    cases e <;> simp [Event.signals, Event.isExit]
  have teardowns : ∀ e : Event, e.signals = true → e.isTeardown = false := by
    intro e
    cases e <;> simp [Event.signals, Event.isTeardown]
  refine ⟨?_, ?_, ?_, ?_, ?_⟩
  · intro p listed
    cases stops p listed with
    | inl stop => exact .inl (member.mpr (.inr stop))
    | inr ended => exact .inr (member.mpr (.inr ended))
  · rw [List.countP_append, List.countP_append, none _ exits before_signals,
      none _ exits after_signals]
    rfl
  · rw [List.countP_append, List.countP_append, none _ teardowns before_signals,
      none _ teardowns after_signals]
    rfl
  · intro e listed
    rcases member.mp listed with rfl | other
    · rfl
    · have := signal e other
      cases e <;> simp_all [Event.signals, Event.isLaunch]
  · intro e listed
    rcases member.mp listed with rfl | other
    · rfl
    · have := signal e other
      cases e <;> simp_all [Event.signals, Event.isSetup]

theorem stops_signals (models : List Process) :
    (models.map Event.stop).all Event.signals = true := by
  apply List.all_eq_true.mpr
  intro e member
  obtain ⟨p, _, rfl⟩ := List.mem_map.mp member
  rfl

theorem signalModels_signals (env : Surroundings) (state : FmiGatewayState)
    (session : FmiGatewaySession) : (signalModels env state session).all Event.signals = true := by
  unfold signalModels
  split
  · rfl
  · rw [List.all_append, List.all_append, stops_signals]
    split <;> split <;> rfl

theorem checkShutdown_signals (env : Surroundings) (models : List Process) :
    (models.flatMap (checkShutdown env)).all Event.signals = true := by
  apply List.all_eq_true.mpr
  intro e member
  obtain ⟨p, _, listed⟩ := List.mem_flatMap.mp member
  unfold checkShutdown at listed
  split at listed
  · rw [List.mem_singleton.mp listed]
    rfl
  · exact absurd listed List.not_mem_nil

theorem stop_mem_signalModels (env : Surroundings) (state : FmiGatewayState)
    {session : FmiGatewaySession} {p : Process} (model : p ∈ session.models) :
    Event.stop p ∈ signalModels env state session := by
  unfold signalModels
  split
  next absent =>
    rw [FmiGatewaySession.models, absent] at model
    exact absurd model List.not_mem_nil
  · apply List.mem_append_left
    apply List.mem_append_right
    exact List.mem_map_of_mem model

/-- The shutdown of the models signals around the exit of the gateway, on Windows to every
process of the session. -/
theorem fmigatewayShutdownModels_signals (env : Surroundings) (state : FmiGatewayState)
    (session : FmiGatewaySession) :
    ∃ before after, fmigatewayShutdownModels env state session = before ++ [.gwExit] ++ after ∧
      before.all Event.signals = true ∧ after.all Event.signals = true ∧
      ∀ upcase, env.platform = .win32 upcase → ∀ p ∈ session.processes,
        Event.stop p ∈ before ++ after ∨ Event.ended p ∈ before ++ after := by
  unfold fmigatewayShutdownModels
  cases env.platform with
  | unix => exact ⟨[], [], rfl, rfl, rfl, fun _ same => (nomatch same)⟩
  | win32 upcase =>
      dsimp only
      rw [List.append_assoc, List.append_assoc]
      refine ⟨_, _, rfl, signalModels_signals env state session, ?_, ?_⟩
      · rw [List.all_append, List.all_append, checkShutdown_signals]
        split <;> split <;> first | rfl | split <;> rfl
      · intro _ _ p listed
        rcases List.mem_append.mp listed with others | model
        · rcases List.mem_append.mp others with transport | simbus
          · split at transport
            next has_transport =>
              rw [List.mem_singleton.mp transport, if_pos has_transport]
              simp
            · exact absurd transport List.not_mem_nil
          · split at simbus
            next has_simbus =>
              rw [List.mem_singleton.mp simbus, if_pos has_simbus]
              split <;> simp
            · exact absurd simbus List.not_mem_nil
        · exact .inl (List.mem_append_left _ (stop_mem_signalModels env state model))

theorem fmigatewayShutdownModels_closes (env : Surroundings) (state : FmiGatewayState)
    {gw : GatewayInstance} (legacy : gw.settings.runtime.runtimeType = .legacy)
    {session : FmiGatewaySession} (present : gw.settings.session = some session) :
    Closes (launchedProcesses env gw) (fmigatewayShutdownModels env state session) := by
  obtain ⟨before, after, split, before_signals, after_signals, stops⟩ :=
    fmigatewayShutdownModels_signals env state session
  rw [split]
  apply closes_of_signals _ _ before_signals after_signals
  intro p launched
  unfold launchedProcesses at launched
  rw [legacy, present] at launched
  cases platform : env.platform with
  | unix =>
      rw [platform] at launched
      exact absurd launched List.not_mem_nil
  | win32 upcase =>
      rw [platform] at launched
      exact stops upcase platform p (List.mem_filter.mp launched).1

/-- The gateway leaves the simulation, then the process of the runtime is stopped. -/
theorem stopSimer_closes (env : Surroundings) {gw gw₀ : GatewayInstance}
    (process : gw.simerProcess.toList = launchedProcesses env gw₀) :
    let gw' := stopSimer env (gw.emit [.gwExit])
    gw'.settings = gw.settings ∧ ∃ closing, Closes (launchedProcesses env gw₀) closing ∧
      gw'.trace = gw.trace ++ closing := by
  unfold stopSimer GatewayInstance.emit
  rw [← process]
  dsimp only
  cases stored : gw.simerProcess with
  | none =>
      refine ⟨?_, [.gwExit], ?_, ?_⟩
      · cases env.platform <;> rfl
      · apply closes_of_signals [] [] rfl rfl
        exact fun _ member => absurd member List.not_mem_nil
      · cases env.platform <;> rfl
  | some p =>
      cases platform : env.platform with
      | unix =>
          rw [stored, launchedProcesses, platform] at process
          cases process
      | win32 upcase =>
          let last := if env.ended p then Event.ended p else Event.stop p
          refine ⟨rfl, [.gwExit] ++ [last], ?_, ?_⟩
          · apply closes_of_signals [] [last] rfl
            · dsimp only [last]
              split <;> rfl
            · intro q member
              rw [List.mem_singleton.mp member]
              dsimp only [last]
              split <;> simp
          · exact List.append_assoc ..

def scriptEvents (env : Surroundings) (gw : GatewayInstance) : List Event :=
  executedEvents env gw .shutdown (shutdownOf env gw.settings) ++
    if shutdownOf env gw.settings = none ∨ env.shutdownResult = 0 then [.teardown] else []

theorem endScripts_trace (env : Surroundings) (gw : GatewayInstance) :
    (endScripts env gw).trace = gw.trace ++ scriptEvents env gw := by
  obtain ⟨trace, _⟩ :=
    runCmd_frame env gw .shutdown (shutdownOf env gw.settings) env.shutdownResult
  have result := runCmd_result env gw .shutdown (shutdownOf env gw.settings) env.shutdownResult
  unfold endScripts scriptEvents
  generalize runCmd env gw .shutdown (shutdownOf env gw.settings) env.shutdownResult = ran at *
  obtain ⟨gw₁, rc⟩ := ran
  dsimp only at *
  split
  next failed =>
    rw [if_neg fun clean => failed (result.mpr clean), trace, List.append_nil]
  next succeeded =>
    rw [if_pos (result.mp (not_not.mp succeeded)), ← List.append_assoc, ← trace]
    rfl

theorem mem_scriptEvents {env : Surroundings} {gw : GatewayInstance} {e : Event}
    (member : e ∈ scriptEvents env gw) : e = .teardown ∨ ∃ x, e = .execute x := by
  cases List.mem_append.mp member with
  | inl executed =>
      obtain ⟨cmd, _, rfl⟩ := List.mem_map.mp executed
      exact .inr ⟨_, rfl⟩
  | inr torn =>
      split at torn
      · exact .inl (List.mem_singleton.mp torn)
      · exact absurd torn List.not_mem_nil

theorem countP_teardown_scriptEvents (env : Surroundings) (gw : GatewayInstance) :
    (scriptEvents env gw).countP Event.isTeardown =
      if shutdownOf env gw.settings = none ∨ env.shutdownResult = 0 then 1 else 0 := by
  have executed : (executedEvents env gw .shutdown (shutdownOf env gw.settings)).countP
      Event.isTeardown = 0 := by
    apply List.countP_eq_zero.mpr
    intro e member
    obtain ⟨cmd, _, rfl⟩ := List.mem_map.mp member
    exact Bool.false_ne_true
  rw [scriptEvents, List.countP_append, executed]
  split <;> rfl

section Runs

variable {env : Surroundings} {gw gw₀ : GatewayInstance} {launched : List Process}
  {setup : Option Int}

theorem RunTo.traceOf (run : RunTo env gw₀ gw launched setup) {ending trace : List Event}
    (split : trace = gw.trace ++ ending) (no_launch : ∀ e ∈ ending, e.isLaunch = false)
    (no_setup : ∀ e ∈ ending, e.isSetup = false) : TraceOf launched setup ending trace := by
  obtain ⟨start, steps, quiet_start, quiet_steps, same⟩ := run.trace
  exact ⟨⟨start, steps, quiet_start, quiet_steps, split.trans (by rw [same])⟩, no_launch, no_setup⟩

theorem RunTo.cleanedUp_created (run : RunTo env gw₀ gw launched setup)
    (created : gw.state = .created) :
    CleanedUp env gw₀.settings (fmuDestroy env gw).trace ↔
      launched = [] ∧ (Started env gw₀.settings → shutdownOf env gw₀.settings = none) := by
  have trace : (fmuDestroy env gw).trace = gw.trace ++ [.teardown] := by
    show (sessionEnd env gw).trace = _
    rw [sessionEnd, if_pos created]
    rfl
  have shape : TraceOf launched setup [.teardown] (fmuDestroy env gw).trace :=
    run.traceOf trace (by simp [Event.isLaunch]) (by simp [Event.isSetup])
  rw [shape.cleanedUp_iff]
  have not_set : setup ≠ some 0 := run.created.mp created
  constructor
  · rintro ⟨stops, _, shutdown, _⟩
    refine ⟨?_, fun started => ?_⟩
    · apply List.eq_nil_iff_forall_not_mem.mpr
      intro p member
      have := stops p member
      simp at this
    · apply Option.eq_none_iff_forall_not_mem.mpr
      intro cmd member
      obtain ⟨x, executed, _⟩ := shutdown started cmd member
      cases List.mem_singleton.mp executed
  · rintro ⟨rfl, none⟩
    refine ⟨fun _ member => absurd member List.not_mem_nil, ?_, ?_, rfl⟩
    · rw [if_neg not_set]
      rfl
    · intro started cmd member
      rw [none started] at member
      cases member

theorem RunTo.cleanedUp_scripts (run : RunTo env gw₀ gw launched (some 0))
    {gw₁ : GatewayInstance} {closing : List Event} (closes : Closes launched closing)
    (settings : gw₁.settings = gw₀.settings)
    (trace : (fmuDestroy env gw).trace = gw.trace ++ closing ++ scriptEvents env gw₁) :
    CleanedUp env gw₀.settings (fmuDestroy env gw).trace ↔
      shutdownOf env gw₀.settings = none ∨ env.shutdownResult = 0 := by
  have silent {e : Event} (member : e ∈ scriptEvents env gw₁) :
      e.isLaunch = false ∧ e.isSetup = false ∧ e.isExit = false := by
    rcases mem_scriptEvents member with rfl | ⟨x, rfl⟩
    · exact ⟨rfl, rfl, rfl⟩
    · exact ⟨rfl, rfl, rfl⟩
  have shape : TraceOf launched (some 0) (closing ++ scriptEvents env gw₁)
      (fmuDestroy env gw).trace := by
    apply run.traceOf (trace.trans (List.append_assoc ..))
    · intro e member
      cases List.mem_append.mp member with
      | inl here => exact closes.no_launch e here
      | inr there => exact (silent there).1
    · intro e member
      cases List.mem_append.mp member with
      | inl here => exact closes.no_setup e here
      | inr there => exact (silent there).2.1
  have no_exit : (scriptEvents env gw₁).countP Event.isExit = 0 := by
    apply List.countP_eq_zero.mpr
    intro e member
    rw [(silent member).2.2]
    exact Bool.false_ne_true
  rw [shape.cleanedUp_iff, List.countP_append, List.countP_append, closes.exit, closes.teardown,
    no_exit, countP_teardown_scriptEvents, settings, if_pos rfl]
  constructor
  · rintro ⟨_, _, _, teardown⟩
    by_contra failed
    rw [if_neg failed] at teardown
    cases teardown
  · intro clean
    refine ⟨?_, rfl, ?_, ?_⟩
    · intro p listed
      cases closes.stops p listed with
      | inl stop => exact .inl (List.mem_append_left _ stop)
      | inr ended => exact .inr (List.mem_append_left _ ended)
    · intro _ cmd configured
      rw [executed_append, scriptEvents, executed_append, settings]
      exact .inr (.inl (executed_executedEvents env gw₁ .shutdown _ cmd configured))
    · rw [if_pos clean]

theorem RunTo.cleanedUp_initialized
    (run : RunTo env gw₀ gw (launchedProcesses env gw₀) (some 0)) :
    CleanedUp env gw₀.settings (fmuDestroy env gw).trace ↔
      (gw₀.settings.runtime.runtimeType = .simer ∨ gw₀.settings.session ≠ none) ∧
        (shutdownOf env gw₀.settings = none ∨ env.shutdownResult = 0) := by
  have initialized : gw.state ≠ .created := fun created => run.created.mp created rfl
  have ended : (fmuDestroy env gw).trace = (sessionEnd env gw).trace := rfl
  have settings := run.settings
  cases type : gw₀.settings.runtime.runtimeType with
  | simer =>
      obtain ⟨same, closing, closes, trace⟩ := stopSimer_closes env (run.process type)
      rw [and_iff_right (.inl rfl)]
      apply run.cleanedUp_scripts closes (same.trans settings)
      rw [ended, sessionEnd, if_neg initialized, settings, type]
      show (endScripts env _).trace = _
      rw [endScripts_trace, trace]
  | legacy =>
      cases session : gw₀.settings.session with
      | none =>
          have trace : (fmuDestroy env gw).trace = gw.trace ++ [.gwExit] := by
            rw [ended, sessionEnd, if_neg initialized, settings, type, session]
            rfl
          have shape : TraceOf (launchedProcesses env gw₀) (some 0) [.gwExit]
              (fmuDestroy env gw).trace :=
            run.traceOf trace (by simp [Event.isLaunch]) (by simp [Event.isSetup])
          rw [shape.cleanedUp_iff]
          constructor
          · rintro ⟨_, _, _, teardown⟩
            cases teardown
          · rintro ⟨simer | present, _⟩
            · cases simer
            · exact absurd rfl present
      | some session' =>
          have closes := fmigatewayShutdownModels_closes env gw.state type session
          rw [and_iff_right (.inr (nomatch ·))]
          have kept : (gw.emit (fmigatewayShutdownModels env gw.state session')).settings =
              gw₀.settings := settings
          apply run.cleanedUp_scripts closes kept
          rw [ended, sessionEnd, if_neg initialized, settings, type, session]
          show (endScripts env _).trace = _
          rw [endScripts_trace]
          rfl

end Runs

theorem configured_frame (fmu : FmuInstanceData) (settings : GatewaySettings)
    (outside : HashMap CString) (before : List (FmuInstanceData → FmuInstanceData)) :
    let gw := configured fmu settings outside before
    gw.settings = settings ∧ gw.state = .created ∧ gw.simerProcess = none ∧
      gw.environ = ⟨outside, outside⟩ ∧ gw.trace = [.parallelize] := by
  have kept (gw : GatewayInstance) :
      (before.foldl GatewayInstance.set gw).settings = gw.settings ∧
        (before.foldl GatewayInstance.set gw).state = gw.state ∧
        (before.foldl GatewayInstance.set gw).simerProcess = gw.simerProcess ∧
        (before.foldl GatewayInstance.set gw).environ = gw.environ ∧
        (before.foldl GatewayInstance.set gw).trace = gw.trace := by
    induction before generalizing gw with
    | nil => exact ⟨rfl, rfl, rfl, rfl, rfl⟩
    | cons change before ih => exact ih (gw.set change)
  exact kept (fmuCreate fmu settings outside)

/-- A run of a gateway cleans up exactly when its session did not start, or it was set up for
a session of its own and its shutdown command succeeds, or it has nothing to clean up. -/
theorem gatewayRun_cleanedUp_iff (env : Surroundings) (fmu : FmuInstanceData)
    (settings : GatewaySettings) (outside : HashMap CString)
    (before : List (FmuInstanceData → FmuInstanceData)) (calls : List ImporterCall) :
    CleanedUp env settings (gatewayRun env fmu settings outside before calls).trace ↔
      CleansUp env (configured fmu settings outside before) := by
  obtain ⟨same, created, no_process, _, trace⟩ := configured_frame fmu settings outside before
  unfold gatewayRun
  generalize configured fmu settings outside before = gw at *
  subst same
  have quiet : gw.trace.all Event.quiet = true := by
    rw [trace]
    rfl
  unfold CleansUp
  rcases fmuInit_cases env created no_process quiet with ⟨failed, run⟩ | ⟨started, run⟩
  · have run := run.calls calls
    rw [run.cleanedUp_created (run.created.mpr (nomatch ·))]
    exact ⟨fun _ started => absurd started failed,
      fun _ => ⟨rfl, fun started => absurd started failed⟩⟩
  · have run := run.calls calls
    rw [forall_prop_of_true started]
    split
    next set =>
      rw [set] at run
      exact run.cleanedUp_initialized
    next not_set =>
      have created : (calls.foldl ImporterCall.run (fmuInit env gw).1).state = .created :=
        run.created.mpr fun same => not_set (Option.some.inj same)
      rw [run.cleanedUp_created created, forall_prop_of_true started]

/-- Windows, where every process can be created and no process ends by itself. -/
def windows (setupResult : Int) : Surroundings where
  platform := .win32 id
  startupFile := none
  shutdownFile := none
  startupResult := 0
  shutdownResult := 0
  setupResult
  created _ := true
  alive _ := true
  ended _ := false
  indexed := id

def simerSettings : GatewaySettings where
  runtime := ⟨.simer, []⟩
  session := none
  scripts := ⟨none, none, []⟩

/-- The process of the runtime outlives a run whose setup fails. -/
theorem gatewayRun_left_running :
    ¬ CleanedUp (windows 1) simerSettings
      (gatewayRun (windows 1) .null simerSettings ∅ [] [.step]).trace := by
  intro clean
  let p := Process.simer (fmigatewayRunSimer ⟨.null, simerSettings.runtime⟩)
  have stopped := clean.stopped p [.parallelize] [.gwSetup 1, .gwSync, .teardown] rfl
  simp at stopped

end DseFmi.FmiGateway
