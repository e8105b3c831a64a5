import DseFmi.Library.Attempt
import DseFmi.Mcl.Model
import Mathlib.Logic.Function.Basic

/-!
# The step of a model

A step sets the variables of the FMU, lets it do a step and gets its variables. Each call may
fail, which ends the step; the values that were got are copied to the source vector only when
all of them were.
-/

namespace DseFmi.Mcl

open DseFmi.Library

inductive Fmi2Type where
  | real
  | integer
  | boolean
  | string
  deriving DecidableEq, Repr

/-- The type that a group is set and got with; there is none for the others. -/
def fmi2Type : MarshalType → Option Fmi2Type
  | .double => some .real
  | .int32 => some .integer
  | .bool => some .boolean
  | .string => some .string
  | _ => none

variable {σ V T τ : Type}

/-- The functions of an FMU. They change the instance and return a status; a getter writes to
the memory it is given, whether it fails or not. -/
structure Fmi2VTable (σ T τ : Type) where
  set : Fmi2Type → σ → List UInt32 → Nat → T → σ × Int
  get : Fmi2Type → σ → List UInt32 → Nat → T → (σ × T) × Int
  doStep : σ → τ → τ → σ × Int

/-- How a group is copied between the source vector and its own memory. -/
structure MarshalCopy (V T : Type) where
  groupOut : MarshalGroup → V → T → T
  groupIn : MarshalGroup → T → V → V

/-- The instance, the source vector, the memory of each group of the table, and the time of the
adapter. -/
structure StepState (σ V T τ : Type) where
  inst : σ
  source : V
  target : Nat → T
  time : τ

/-- The directions whose groups are set before a step. -/
def MarshalDir.isSet : MarshalDir → Bool
  | .txrx | .txonly | .parameter => true
  | _ => false

/-- The directions whose groups are got after a step. -/
def MarshalDir.isGot : MarshalDir → Bool
  | .txrx | .rxonly | .local => true
  | _ => false

inductive StepCall where
  | marshalGroupOut
  | set (type : Fmi2Type) (i : Nat) (mg : MarshalGroup)
  | doStep
  | get (type : Fmi2Type) (i : Nat) (mg : MarshalGroup)
  | marshalGroupIn
  deriving DecidableEq, Repr

def ebadmsg : Int := 74

/-- What a function has called, the state it leaves and what it returns. -/
structure StepRun (σ V T τ : Type) where
  log : List (StepCall × Int)
  state : StepState σ V T τ
  rc : Int

def StepRun.after (entry : StepCall × Int) (run : StepRun σ V T τ) : StepRun σ V T τ :=
  { run with log := entry :: run.log }

/-- The next function is called unless an error is returned. -/
def StepRun.andThen (run : StepRun σ V T τ) (next : StepState σ V T τ → StepRun σ V T τ) :
    StepRun σ V T τ :=
  if run.rc ≠ 0 then run
  else
    let rest := next run.state
    { rest with log := run.log ++ rest.log }

section Adapter

variable (vtable : Fmi2VTable σ T τ) (copy : MarshalCopy V T)

def marshalGroupOut (table : List MarshalGroup) (s : StepState σ V T τ) : StepState σ V T τ :=
  { s with target := fun i =>
      match table[i]? with
      | some mg => copy.groupOut mg s.source (s.target i)
      | none => s.target i }

def marshalGroupIn (table : List MarshalGroup) (s : StepState σ V T τ) : StepState σ V T τ :=
  let groupIn (source : V) (g : MarshalGroup × Nat) := copy.groupIn g.1 (s.target g.2) source
  { s with source := table.zipIdx.foldl groupIn s.source }

def setValues (type : Fmi2Type) (i : Nat) (mg : MarshalGroup) (s : StepState σ V T τ) :
    StepState σ V T τ × Int :=
  let (inst, rc) := vtable.set type s.inst mg.target.ref mg.count (s.target i)
  ({ s with inst }, rc)

def getValues (type : Fmi2Type) (i : Nat) (mg : MarshalGroup) (s : StepState σ V T τ) :
    StepState σ V T τ × Int :=
  let ((inst, values), rc) := vtable.get type s.inst mg.target.ref mg.count (s.target i)
  ({ s with inst, target := Function.update s.target i values }, rc)

/-- The groups with certain directions are handled by the type they have. -/
def marshalGroups (handles : MarshalDir → Bool)
    (call : Fmi2Type → Nat → MarshalGroup → StepState σ V T τ → StepState σ V T τ × Int)
    (event : Fmi2Type → Nat → MarshalGroup → StepCall) :
    List (MarshalGroup × Nat) → StepState σ V T τ → StepRun σ V T τ
  | [], s => ⟨[], s, 0⟩
  | (mg, i) :: groups, s =>
      if handles mg.dir then
        match fmi2Type mg.type with
        | some type =>
            let (s, rc) := call type i mg s
            if rc > 0 then ⟨[(event type i mg, rc)], s, ebadmsg⟩
            else (marshalGroups handles call event groups s).after (event type i mg, rc)
        | none => marshalGroups handles call event groups s
      else marshalGroups handles call event groups s

def fmi2mclMarshalOut (table : List MarshalGroup) (s : StepState σ V T τ) : StepRun σ V T τ :=
  let s := marshalGroupOut copy table s
  (marshalGroups MarshalDir.isSet (setValues vtable) .set table.zipIdx s).after
    (.marshalGroupOut, 0)

def fmi2mclStep [Sub τ] (endTime : τ) (s : StepState σ V T τ) : StepRun σ V T τ :=
  let (inst, rc) := vtable.doStep s.inst s.time (endTime - s.time)
  let s := { s with inst }
  if rc > 0 then ⟨[(.doStep, rc)], s, ebadmsg⟩
  else ⟨[(.doStep, rc)], { s with time := endTime }, 0⟩

def fmi2mclMarshalIn (table : List MarshalGroup) (s : StepState σ V T τ) : StepRun σ V T τ :=
  (marshalGroups MarshalDir.isGot (getValues vtable) .get table.zipIdx s).andThen fun s =>
    ⟨[(.marshalGroupIn, 0)], marshalGroupIn copy table s, 0⟩

end Adapter

/-- `mcl_marshal_out`, `mcl_step` and `mcl_marshal_in`, which come with the runtime. Each is given
the function of the adapter that it calls. -/
structure MclStepper (σ V T τ : Type) where
  marshalOut : (StepState σ V T τ → StepRun σ V T τ) → StepState σ V T τ → StepRun σ V T τ
  step : (τ → StepState σ V T τ → StepRun σ V T τ) → τ → StepState σ V T τ → StepRun σ V T τ
  marshalIn : (StepState σ V T τ → StepRun σ V T τ) → StepState σ V T τ → StepRun σ V T τ

/-- The adapter is called once by each. -/
structure MclStepper.CallsOnce (mcl : MclStepper σ V T τ) : Prop where
  marshalOut : ∀ call s, mcl.marshalOut call s = call s
  step : ∀ call stopTime s, mcl.step call stopTime s = call stopTime s
  marshalIn : ∀ call s, mcl.marshalIn call s = call s

/-- What a step returns, and the model time it leaves. -/
def modelStep [Sub τ] (mcl : MclStepper σ V T τ) (vtable : Fmi2VTable σ T τ)
    (copy : MarshalCopy V T)
    (table : List MarshalGroup) (s : StepState σ V T τ) (modelTime stopTime : τ) :
    StepRun σ V T τ × τ :=
  let run := (mcl.marshalOut (fmi2mclMarshalOut vtable copy table) s).andThen fun s =>
    (mcl.step (fmi2mclStep vtable) stopTime s).andThen fun s =>
      mcl.marshalIn (fmi2mclMarshalIn vtable copy table) s
  (run, if run.rc ≠ 0 then modelTime else stopTime)

def groupCall (handles : MarshalDir → Bool) (event : Fmi2Type → Nat → MarshalGroup → StepCall)
    (g : MarshalGroup × Nat) : Option StepCall :=
  if handles g.1.dir then (fmi2Type g.1.type).map fun type => event type g.2 g.1 else none

def setCalls (table : List MarshalGroup) : List StepCall :=
  table.zipIdx.filterMap (groupCall MarshalDir.isSet .set)

def getCalls (table : List MarshalGroup) : List StepCall :=
  table.zipIdx.filterMap (groupCall MarshalDir.isGot .get)

def stepCalls (table : List MarshalGroup) : List StepCall :=
  .marshalGroupOut :: setCalls table ++ .doStep :: getCalls table ++ [.marshalGroupIn]

/-- What a call does, and the status it returns; the copies do not fail. -/
def StepCall.run [Sub τ] (vtable : Fmi2VTable σ T τ) (copy : MarshalCopy V T)
    (table : List MarshalGroup) (stopTime : τ) (c : StepCall) (s : StepState σ V T τ) :
    StepState σ V T τ × Int :=
  match c with
  | .marshalGroupOut => (Mcl.marshalGroupOut copy table s, 0)
  | .set type i mg => setValues vtable type i mg s
  | .doStep =>
      let (inst, rc) := vtable.doStep s.inst s.time (stopTime - s.time)
      ({ s with inst, time := if rc > 0 then s.time else stopTime }, rc)
  | .get type i mg => getValues vtable type i mg s
  | .marshalGroupIn => (Mcl.marshalGroupIn copy table s, 0)

def isError (status : Int) : Bool := decide (0 < status)

def StepRun.of (a : Attempt StepCall (StepState σ V T τ) Int) : StepRun σ V T τ :=
  ⟨a.log, a.state, if a.error.isSome then ebadmsg else 0⟩

theorem StepRun.of_andThen (a : Attempt StepCall (StepState σ V T τ) Int)
    (next : StepState σ V T τ → Attempt StepCall (StepState σ V T τ) Int) :
    StepRun.of (a.andThen next) = (StepRun.of a).andThen fun s => .of (next s) := by
  obtain ⟨log, state, error⟩ := a
  cases error <;> rfl

section Calls

variable [Sub τ] (vtable : Fmi2VTable σ T τ) (copy : MarshalCopy V T) (table : List MarshalGroup)
  (stopTime : τ)

def attemptCalls (calls : List StepCall) (s : StepState σ V T τ) :
    Attempt StepCall (StepState σ V T τ) Int :=
  attempt (StepCall.run vtable copy table stopTime) isError calls s

variable {vtable copy table stopTime}

theorem attemptCalls_cons (c : StepCall) (calls : List StepCall) (s : StepState σ V T τ) :
    StepRun.of (attemptCalls vtable copy table stopTime (c :: calls) s) =
      let (t, rc) := c.run vtable copy table stopTime s
      if rc > 0 then ⟨[(c, rc)], t, ebadmsg⟩
      else (StepRun.of (attemptCalls vtable copy table stopTime calls t)).after (c, rc) := by
  rcases made : c.run vtable copy table stopTime s with ⟨t, rc⟩
  by_cases failed : rc > 0
  · rw [attemptCalls, attempt_cons_failed made (decide_eq_true failed)]
    simp [failed, StepRun.of]
  · rw [attemptCalls, attempt_cons made (decide_eq_false failed)]
    simp only [if_neg failed]
    rfl

theorem marshalGroups_eq {handles : MarshalDir → Bool}
    {call : Fmi2Type → Nat → MarshalGroup → StepState σ V T τ → StepState σ V T τ × Int}
    {event : Fmi2Type → Nat → MarshalGroup → StepCall}
    (runs : ∀ type i mg s, (event type i mg).run vtable copy table stopTime s = call type i mg s)
    (groups : List (MarshalGroup × Nat)) (s : StepState σ V T τ) :
    marshalGroups handles call event groups s =
      .of (attemptCalls vtable copy table stopTime (groups.filterMap (groupCall handles event))
        s) := by
  induction groups generalizing s with
  | nil => rfl
  | cons g groups ih =>
      obtain ⟨mg, i⟩ := g
      rw [marshalGroups]
      by_cases handled : handles mg.dir
      · rw [if_pos handled]
        cases typed : fmi2Type mg.type with
        | none =>
            have silent : groupCall handles event (mg, i) = none := by
              simp [groupCall, typed]
            rw [List.filterMap_cons_none silent]
            exact ih s
        | some type =>
            have called : groupCall handles event (mg, i) = some (event type i mg) := by
              simp [groupCall, typed, handled]
            rw [List.filterMap_cons_some called, attemptCalls_cons, runs]
            simp only [ih]
      · have silent : groupCall handles event (mg, i) = none := by
          simp [groupCall, handled]
        rw [if_neg handled, List.filterMap_cons_none silent]
        exact ih s

theorem attemptCalls_append (first second : List StepCall) (s : StepState σ V T τ) :
    StepRun.of (attemptCalls vtable copy table stopTime (first ++ second) s) =
      (StepRun.of (attemptCalls vtable copy table stopTime first s)).andThen fun s =>
        .of (attemptCalls vtable copy table stopTime second s) := by
  rw [attemptCalls, attempt_append, StepRun.of_andThen]
  rfl

theorem fmi2mclMarshalOut_eq (s : StepState σ V T τ) :
    fmi2mclMarshalOut vtable copy table s =
      .of (attemptCalls vtable copy table stopTime (.marshalGroupOut :: setCalls table) s) := by
  have loop : marshalGroups MarshalDir.isSet (setValues vtable) .set table.zipIdx
      (marshalGroupOut copy table s) =
        .of (attemptCalls vtable copy table stopTime (setCalls table)
          (marshalGroupOut copy table s)) := by
    apply marshalGroups_eq
    intros
    rfl
  rw [attemptCalls_cons, fmi2mclMarshalOut, loop]
  rfl

theorem fmi2mclStep_eq (s : StepState σ V T τ) :
    fmi2mclStep vtable stopTime s = .of (attemptCalls vtable copy table stopTime [.doStep] s) := by
  rw [attemptCalls_cons, fmi2mclStep, StepCall.run]
  dsimp only
  split
  · rfl
  · rfl

theorem fmi2mclMarshalIn_eq (s : StepState σ V T τ) :
    fmi2mclMarshalIn vtable copy table s =
      .of (attemptCalls vtable copy table stopTime (getCalls table ++ [.marshalGroupIn]) s) := by
  have loop : marshalGroups MarshalDir.isGot (getValues vtable) .get table.zipIdx s =
      .of (attemptCalls vtable copy table stopTime (getCalls table) s) := by
    apply marshalGroups_eq
    intros
    rfl
  rw [attemptCalls_append, fmi2mclMarshalIn, loop]
  rfl

theorem modelStep_eq {mcl : MclStepper σ V T τ} (once : mcl.CallsOnce) (s : StepState σ V T τ)
    (modelTime : τ) :
    modelStep mcl vtable copy table s modelTime stopTime =
      let a := attemptCalls vtable copy table stopTime (stepCalls table) s
      (.of a, if a.error.isSome then modelTime else stopTime) := by
  have phases : stepCalls table = (.marshalGroupOut :: setCalls table) ++
      ([.doStep] ++ (getCalls table ++ [.marshalGroupIn])) := by
    simp [stepCalls]
  have run : (modelStep mcl vtable copy table s modelTime stopTime).1 =
      .of (attemptCalls vtable copy table stopTime (stepCalls table) s) := by
    rw [phases, attemptCalls_append, ← fmi2mclMarshalOut_eq, modelStep]
    simp only [attemptCalls_append [.doStep], ← fmi2mclStep_eq, ← fmi2mclMarshalIn_eq,
      once.marshalOut, once.step, once.marshalIn]
  apply Prod.ext run
  show (if (modelStep mcl vtable copy table s modelTime stopTime).1.rc ≠ 0 then modelTime
    else stopTime) = _
  rw [run, StepRun.of]
  dsimp only
  cases (attemptCalls vtable copy table stopTime (stepCalls table) s).error <;> rfl

structure StepOutcome (vtable : Fmi2VTable σ T τ) (copy : MarshalCopy V T)
    (table : List MarshalGroup) (s : StepState σ V T τ) (modelTime stopTime : τ)
    (run : StepRun σ V T τ × τ) : Prop where
  calls : run.1.log.map Prod.fst <+: stepCalls table
  performed : Performs (StepCall.run vtable copy table stopTime) s run.1.log run.1.state
  earlier : ∀ entry ∈ run.1.log.dropLast, entry.2 ≤ 0
  success : (∀ entry ∈ run.1.log, entry.2 ≤ 0) →
    run.1.log.map Prod.fst = stepCalls table ∧ run.1.rc = 0 ∧ run.2 = stopTime
  failure : (∃ entry ∈ run.1.log, 0 < entry.2) →
    run.1.rc ≠ 0 ∧ run.2 = modelTime ∧ run.1.state.source = s.source

theorem StepCall.run_source {c : StepCall} (other : c ≠ .marshalGroupIn) (s : StepState σ V T τ) :
    (c.run vtable copy table stopTime s).1.source = s.source := by
  cases c with
  | marshalGroupOut => rfl
  | set type i mg => rfl
  | doStep => rfl
  | get type i mg => rfl
  | marshalGroupIn => exact absurd rfl other

theorem stepCalls_eq (table : List MarshalGroup) :
    stepCalls table = (.marshalGroupOut :: setCalls table ++ .doStep :: getCalls table) ++
      [.marshalGroupIn] := by
  simp [stepCalls]

theorem groupCall_ne_marshalGroupIn {handles : MarshalDir → Bool}
    {event : Fmi2Type → Nat → MarshalGroup → StepCall}
    (other : ∀ type i mg, event type i mg ≠ .marshalGroupIn) {groups : List (MarshalGroup × Nat)} :
    ∀ c ∈ groups.filterMap (groupCall handles event), c ≠ .marshalGroupIn := by
  intro c member
  obtain ⟨g, _, called⟩ := List.mem_filterMap.mp member
  rw [groupCall] at called
  split at called
  · obtain ⟨type, _, rfl⟩ := Option.map_eq_some_iff.mp called
    exact other type _ _
  · cases called

variable (table) in
theorem mem_stepCalls_ne_marshalGroupIn :
    ∀ c ∈ .marshalGroupOut :: setCalls table ++ .doStep :: getCalls table,
      c ≠ .marshalGroupIn := by
  intro c member
  simp only [List.cons_append, List.mem_cons, List.mem_append] at member
  rcases member with rfl | member | rfl | member
  · simp
  · exact groupCall_ne_marshalGroupIn (by simp) c member
  · simp
  · exact groupCall_ne_marshalGroupIn (by simp) c member

theorem attemptCalls_source (s : StepState σ V T τ)
    (failed : (attemptCalls vtable copy table stopTime (stepCalls table) s).error.isSome) :
    (attemptCalls vtable copy table stopTime (stepCalls table) s).state.source = s.source := by
  rw [stepCalls_eq, attemptCalls, attempt_append] at failed ⊢
  generalize calls : .marshalGroupOut :: setCalls table ++ .doStep :: getCalls table = before
    at failed ⊢
  have performs := attempt_performs (StepCall.run vtable copy table stopTime) isError before s
  have made := attempt_isPrefix (StepCall.run vtable copy table stopTime) isError before s
  generalize attempt (StepCall.run vtable copy table stopTime) isError before s = a
    at failed performs made ⊢
  obtain ⟨log, state, error⟩ := a
  cases error with
  | none => exact absurd failed (by simp [Attempt.andThen, attempt, StepCall.run, isError])
  | some rc =>
      refine performs.keeps ?_
      intro entry member u
      apply StepCall.run_source
      apply mem_stepCalls_ne_marshalGroupIn table
      rw [calls]
      exact made.subset (List.mem_map_of_mem member)

/-- For every table and whatever its calls return, a step makes its calls up to the first that
fails; the time advances and the source vector changes only when none does. -/
theorem modelStep_outcome {mcl : MclStepper σ V T τ} (once : mcl.CallsOnce)
    (vtable : Fmi2VTable σ T τ) (copy : MarshalCopy V T) (table : List MarshalGroup)
    (s : StepState σ V T τ) (modelTime stopTime : τ) :
    StepOutcome vtable copy table s modelTime stopTime
      (modelStep mcl vtable copy table s modelTime stopTime) := by
  rw [modelStep_eq once]
  have failed : (attemptCalls vtable copy table stopTime (stepCalls table) s).error.isSome ↔
      ∃ entry ∈ (attemptCalls vtable copy table stopTime (stepCalls table) s).log,
        0 < entry.2 := by
    rw [attemptCalls, attempt_error_iff]
    simp [isError]
  refine ⟨attempt_isPrefix _ _ _ s, attempt_performs _ _ _ s, ?_, ?_, ?_⟩
  · intro entry member
    have passed := attempt_earlier (stepCalls table) s entry member
    simpa [isError] using passed
  · intro passed
    have complete : (attemptCalls vtable copy table stopTime (stepCalls table) s).error = none := by
      rw [← Option.not_isSome_iff_eq_none, failed]
      rintro ⟨entry, member, positive⟩
      exact absurd positive (Int.not_lt.mpr (passed entry member))
    refine ⟨attempt_complete complete, ?_, ?_⟩
    · simp [StepRun.of, complete]
    · simp [complete]
  · intro error
    have stopped := failed.mpr error
    refine ⟨?_, if_pos stopped, attemptCalls_source s stopped⟩
    simp [StepRun.of, stopped, ebadmsg]

end Calls

/-- The functions that do nothing but call the adapter. -/
def directStepper : MclStepper σ V T τ where
  marshalOut call := call
  step call := call
  marshalIn call := call

theorem directStepper_callsOnce : (directStepper : MclStepper σ V T τ).CallsOnce :=
  ⟨fun _ _ => rfl, fun _ _ _ => rfl, fun _ _ => rfl⟩

def gearGroup : MarshalGroup :=
  ⟨.none, .rxonly, .none, 1, ⟨[1], none⟩, 0, ⟨none, none⟩⟩

/-- A group of real values that are set and got. -/
def speedGroup : MarshalGroup :=
  ⟨.primitive, .txrx, .double, 1, ⟨[2], none⟩, 1, ⟨none, none⟩⟩

/-- An FMU all of whose calls succeed. -/
def idleVTable : Fmi2VTable Unit (List Nat) Nat where
  set _ inst _ _ _ := (inst, 0)
  get _ inst _ _ values := ((inst, values), 0)
  doStep inst _ _ := (inst, 0)

def copyNothing : MarshalCopy (List Nat) (List Nat) where
  groupOut _ _ target := target
  groupIn _ _ source := source

theorem modelStep_outcome_speed :
    StepOutcome idleVTable copyNothing [gearGroup, speedGroup] ⟨(), [0, 7], fun _ => [0], 0⟩ 0 1
      (modelStep directStepper idleVTable copyNothing [gearGroup, speedGroup]
        ⟨(), [0, 7], fun _ => [0], 0⟩ 0 1) :=
  modelStep_outcome directStepper_callsOnce idleVTable copyNothing [gearGroup, speedGroup] _ 0 1

/-- The group is to be got after a step, and is not. -/
theorem modelStep_skips_gear :
    gearGroup.dir.isGot = true ∧
      (modelStep directStepper idleVTable copyNothing [gearGroup]
        ⟨(), [0], fun _ => [0], 0⟩ 0 1).1.rc = 0 ∧
      (modelStep directStepper idleVTable copyNothing [gearGroup]
        ⟨(), [0], fun _ => [0], 0⟩ 0 1).1.log.map Prod.fst =
          [.marshalGroupOut, .doStep, .marshalGroupIn] := by
  decide

end DseFmi.Mcl
