import DseFmi.Generate.GatewayFmu
import DseFmi.Library.Success

/-!
# The collection of the parameters

After the parameters of the runtime, a run only adds parameters of scripts. Whatever such
a parameter keeps holds after the whole collection.
-/

namespace DseFmi.Generate

open DseFmi.Library

theorem eq_some_of_deref {α : Type} {o : Option α} {x : α} (found : deref o = .ok x) :
    o = some x := by
  cases o with
  | none => cases found
  | some y => exact congrArg some (Except.ok.inj found)

theorem ofGo_eq_ok {α : Type} {x : Go α} {a : α} : Run.ofGo x = .ok a ↔ x = .ok a := by
  cases x with
  | error p => exact ⟨(nomatch ·), (nomatch ·)⟩
  | ok b =>
      constructor
      · intro same
        exact congrArg _ (Except.ok.inj same)
      · intro same
        exact congrArg _ (Except.ok.inj same)

theorem ofResult_eq_ok {α : Type} {x : Except String α} {a : α}
    (found : Run.ofResult x = .ok a) : x = .ok a := by
  cases x with
  | error message => cases found
  | ok b => exact congrArg _ (Except.ok.inj found)

/-- A property of the command that the parameters of scripts and the times keep. -/
structure Collected (p : Gateway → Prop) : Prop where
  times : ∀ c startTime endTime stepSize, p c → p { c with startTime, endTime, stepSize }
  parameter : ∀ c type name start, p c →
    p (c.addParameter type name (some start) scriptParameter)

section Steps

variable {p : Gateway → Prop} (kept : Collected p) {c d : Gateway}

include kept

theorem Collected.getEnvar (holds : p c) (expectedType : ParameterType) (envarList : List Value) :
    p (getEnvar expectedType c envarList) := by
  induction envarList generalizing c with
  | nil => exact holds
  | cons envar envarList ih =>
      cases envar with
      | map entries =>
          simp only [DseFmi.Generate.getEnvar]
          split
          · split
            · exact ih holds
            · exact ih (kept.parameter _ _ _ _ holds)
          · exact ih holds
      | _ => exact ih holds

theorem Collected.parseGateway (holds : p c) {anns : Annotations}
    (ran : c.parseGateway anns = .ok d) : p d := by
  obtain ⟨stepSize, _, ran⟩ := bind_eq_ok.mp ran
  obtain ⟨endTime, _, ran⟩ := bind_eq_ok.mp ran
  obtain ⟨startTime, _, ran⟩ := bind_eq_ok.mp ran
  have timed := kept.times c startTime endTime stepSize holds
  dsimp only at ran
  split at ran
  · cases ran
    exact timed
  · cases ran
    apply kept.getEnvar
    apply kept.getEnvar
    exact timed
  · cases ran

theorem Collected.parseModels (holds : p c) {models : List ModelInstance}
    (ran : c.parseModels models = .ok d) : p d := by
  induction models generalizing c with
  | nil =>
      cases ran
      exact holds
  | cons model models ih =>
      rw [Gateway.parseModels] at ran
      split at ran
      · obtain ⟨anns, _, ran⟩ := bind_eq_ok.mp ran
        obtain ⟨e, parsed, ran⟩ := bind_eq_ok.mp ran
        exact ih (kept.parseGateway holds parsed) ran
      · exact ih holds ran

theorem Collected.parseStack (holds : p c) {stack : Option (Except String Stack)}
    (ran : c.parseStack stack = .ok d) : p d := by
  cases stack with
  | none =>
      cases ran
      exact holds
  | some stack =>
      obtain ⟨stack, _, ran⟩ := bind_eq_ok.mp ran
      obtain ⟨models, _, ran⟩ := bind_eq_ok.mp ran
      exact kept.parseModels holds (ofGo_eq_ok.mp ran)

theorem Collected.parseRecord (holds : p c) {record : List String}
    (ran : c.parseRecord record = .ok d) : p d := by
  unfold Gateway.parseRecord at ran
  split at ran
  · dsimp only at ran
    split at ran
    · cases ran
      exact holds
    · split at ran
      · cases ran
        exact kept.parameter _ _ _ _ holds
      · split at ran
        · cases ran
          exact kept.parameter _ _ _ _ holds
        · cases ran
  · cases ran

theorem Collected.parseRecords (holds : p c) {records : List (List String)}
    (ran : records.foldlM Gateway.parseRecord c = .ok d) : p d := by
  apply foldlM_preserves _ holds ran
  intro record _ c d holds parsed
  exact kept.parseRecord holds parsed

theorem Collected.parseParametersCsv (holds : p c)
    {parameters : Option (Except String (List (List String)))}
    (ran : c.parseParametersCsv parameters = .ok d) : p d := by
  cases parameters with
  | none =>
      cases ran
      exact holds
  | some records =>
      obtain ⟨records, _, ran⟩ := bind_eq_ok.mp ran
      exact kept.parseRecords holds ran

/-- What holds after the parameters of the runtime holds after the collection. -/
theorem Collected.collectParameters {args : Arguments} (holds : p (c.createRuntime args.runtime))
    (ran : c.collectParameters args = .ok d) : p d := by
  obtain ⟨e, parsed, ran⟩ := bind_eq_ok.mp ran
  exact kept.parseParametersCsv (kept.parseStack holds parsed) ran

end Steps

end DseFmi.Generate
