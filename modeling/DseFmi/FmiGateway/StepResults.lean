import DseFmi.FmiGateway.Session

/-!
# The results of the steps

A step of the gateway synchronises it with the simulation. The result of the synchronisation
decides what the importer is told, and which step the session takes for the last one when it
shuts the models down.
-/

namespace DseFmi.FmiGateway

variable {D : Type}

structure SteppedSession (D : Type) where
  lastStep : D

structure SteppedGateway (D : Type) where
  state : FmiGatewayState
  session : Option (SteppedSession D)
  stepSize : D

/-- A call of `fmi2DoStep`, with what `model_gw_sync` returns in it. -/
structure DoStep (D : Type) where
  communicationPoint : D
  stepSize : D
  result : Int

inductive Fmi2Status where
  | ok
  | error
  deriving DecidableEq, Repr

/-- `E_GATEWAYBEHIND` is the result of a gateway that is behind the simulation. -/
def fmuStepResult (gatewayBehind : Int) (gw : SteppedGateway D) (call : DoStep D) :
    SteppedGateway D × Int :=
  let gw := if gw.state = .initialized then { gw with state := .running } else gw
  if call.result = gatewayBehind then (gw, 0)
  else
    match gw.session with
    | some _ =>
        ({ gw with session := some ⟨call.communicationPoint⟩, stepSize := call.stepSize }, 0)
    | none => (gw, 0)

def fmi2DoStep (gatewayBehind : Int) (gw : SteppedGateway D) (call : DoStep D) :
    SteppedGateway D × Fmi2Status :=
  let (gw, rc) := fmuStepResult gatewayBehind gw call
  (gw, if rc = 0 then .ok else .error)

def afterSteps (gatewayBehind : Int) (gw : SteppedGateway D) (calls : List (DoStep D)) :
    SteppedGateway D :=
  calls.foldl (fun gw call => (fmi2DoStep gatewayBehind gw call).1) gw

/-- The communication point of the last call that synchronised the gateway. -/
def lastSynchronised (calls : List (DoStep D)) : Option D :=
  ((calls.filter fun call => call.result = 0).getLast?).map DoStep.communicationPoint

/-- In every state of a run the importer is told of a step that failed, and the session has the
last step that synchronised it. -/
structure StepsReported (gatewayBehind : Int) (gw : SteppedGateway D)
    (calls : List (DoStep D)) : Prop where
  status : ∀ before call after, calls = before ++ call :: after →
    ((fmi2DoStep gatewayBehind (afterSteps gatewayBehind gw before) call).2 = .ok ↔
      call.result = 0 ∨ call.result = gatewayBehind)
  lastStep : ∀ before after, calls = before ++ after → ∀ session ∈ gw.session,
    (afterSteps gatewayBehind gw before).session =
      some ⟨(lastSynchronised before).getD session.lastStep⟩

variable {gatewayBehind : Int} {gw : SteppedGateway D} {call : DoStep D}
  {calls : List (DoStep D)}

theorem fmi2DoStep_ok (gatewayBehind : Int) (gw : SteppedGateway D) (call : DoStep D) :
    (fmi2DoStep gatewayBehind gw call).2 = .ok := by
  simp only [fmi2DoStep, fmuStepResult]
  split
  · rfl
  · split <;> rfl

theorem session_fmi2DoStep (gatewayBehind : Int) (gw : SteppedGateway D) (call : DoStep D) :
    (fmi2DoStep gatewayBehind gw call).1.session =
      gw.session.map fun session =>
        if call.result = gatewayBehind then session else ⟨call.communicationPoint⟩ := by
  have kept : (if gw.state = .initialized then { gw with state := .running } else gw).session =
      gw.session := by
    split <;> rfl
  simp only [fmi2DoStep, fmuStepResult]
  generalize (if gw.state = .initialized then { gw with state := .running } else gw) = started
    at kept ⊢
  rw [← kept]
  by_cases behind : call.result = gatewayBehind
  · simp [behind]
  · cases stored : started.session <;> simp [behind, stored]

theorem afterSteps_concat (gatewayBehind : Int) (gw : SteppedGateway D) (calls : List (DoStep D))
    (call : DoStep D) :
    afterSteps gatewayBehind gw (calls ++ [call]) =
      (fmi2DoStep gatewayBehind (afterSteps gatewayBehind gw calls) call).1 := by
  simp [afterSteps]

theorem lastSynchronised_concat (calls : List (DoStep D)) (call : DoStep D) :
    lastSynchronised (calls ++ [call]) =
      if call.result = 0 then some call.communicationPoint else lastSynchronised calls := by
  by_cases synchronised : call.result = 0
  · simp [lastSynchronised, synchronised]
  · simp [lastSynchronised, synchronised]

theorem session_afterSteps (different : gatewayBehind ≠ 0)
    (reported : ∀ call ∈ calls, call.result = 0 ∨ call.result = gatewayBehind)
    {session : SteppedSession D} (stored : gw.session = some session) :
    (afterSteps gatewayBehind gw calls).session =
      some ⟨(lastSynchronised calls).getD session.lastStep⟩ := by
  induction calls using List.reverseRecOn with
  | nil =>
      simpa [afterSteps, lastSynchronised] using stored
  | append_singleton calls call ih =>
      have earlier := ih fun other member => reported other (List.mem_append_left _ member)
      rw [afterSteps_concat, session_fmi2DoStep, earlier, lastSynchronised_concat]
      rcases reported call (by simp) with synchronised | behind
      · simp [synchronised, different.symm]
      · simp [behind, different]

/-- Results are reported right exactly in the runs where no synchronisation fails. -/
theorem stepsReported_iff (gatewayBehind : Int) (gw : SteppedGateway D) (calls : List (DoStep D))
    (different : gatewayBehind ≠ 0) :
    StepsReported gatewayBehind gw calls ↔
      ∀ call ∈ calls, call.result = 0 ∨ call.result = gatewayBehind := by
  constructor
  · intro reported call member
    obtain ⟨before, after, split⟩ := List.append_of_mem member
    exact (reported.status before call after split).mp (fmi2DoStep_ok _ _ call)
  · intro reported
    constructor
    · intro before call after split
      have member : call ∈ calls := by simp [split]
      simp only [fmi2DoStep_ok, true_iff]
      exact reported call member
    · rintro before after rfl session stored
      apply session_afterSteps different
      · exact fun call member => reported call (List.mem_append_left after member)
      · exact stored

/-- A run in which the gateway is behind once. -/
theorem stepsReported_behind :
    StepsReported (-2) ⟨.initialized, some ⟨(0 : Nat)⟩, 0⟩ [⟨0, 1, 0⟩, ⟨1, 1, -2⟩, ⟨2, 1, 0⟩] := by
  have different : (-2 : Int) ≠ 0 := by decide
  apply (stepsReported_iff (-2) _ _ different).mpr
  decide

/-- A synchronisation that fails is reported as done, and is the last step of the session. -/
theorem stepsReported_failed :
    ¬ StepsReported (-2) ⟨.initialized, some ⟨(0 : Nat)⟩, 0⟩ [⟨0, 1, 0⟩, ⟨1, 1, 5⟩] := by
  intro reported
  have failed := (reported.status [⟨0, 1, 0⟩] ⟨1, 1, 5⟩ [] rfl).mp (fmi2DoStep_ok _ _ _)
  revert failed
  decide

end DseFmi.FmiGateway
