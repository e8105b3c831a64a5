import DseFmi.Generate.Collection

/-!
# Stacks that can be read

The annotations of the gateway are read at a fixed type: a time that is written as an
integer, or a list of variables that is none, ends the program. Files that cannot be read
and malformed parameters are reported as errors.
-/

namespace DseFmi.Generate

open DseFmi.Library

def Run.NoPanic {α : Type} (run : Run α) : Prop := ∀ p, run ≠ .error (.panic p)

section Run

variable {α β : Type}

theorem Run.noPanic_ok (x : α) : Run.NoPanic (.ok x) := by
  intro p same
  cases same

theorem Run.noPanic_error (e : GatewayError) : Run.NoPanic (.error (.error e) : Run α) := by
  intro p same
  cases same

/-- A sequence does not panic when its first part does not, nor what follows a success. -/
theorem Run.noPanic_bind_iff {run : Run α} {f : α → Run β} :
    Run.NoPanic (run >>= f) ↔ Run.NoPanic run ∧ ∀ x, run = .ok x → Run.NoPanic (f x) := by
  cases run with
  | ok x =>
      rw [ok_bind]
      constructor
      · intro later
        refine ⟨Run.noPanic_ok x, ?_⟩
        rintro y ⟨⟩
        exact later
      · intro both
        exact both.2 x rfl
  | error e =>
      rw [error_bind]
      constructor
      · intro kept
        refine ⟨fun p same => kept p (congrArg _ (Except.error.inj same)), ?_⟩
        intro x same
        cases same
      · intro both p same
        exact both.1 p (congrArg _ (Except.error.inj same))

theorem Run.noPanic_ofGo_iff {x : Go α} : Run.NoPanic (Run.ofGo x) ↔ ∃ a, x = .ok a := by
  cases x with
  | ok a => exact ⟨fun _ => ⟨a, rfl⟩, fun _ => Run.noPanic_ok a⟩
  | error p =>
      constructor
      · intro kept
        exact absurd rfl (kept p)
      · rintro ⟨a, same⟩
        cases same

theorem Run.noPanic_ofResult (x : Except String α) : Run.NoPanic (Run.ofResult x) := by
  cases x with
  | ok a => exact Run.noPanic_ok a
  | error message => exact Run.noPanic_error _

end Run

def isFloatOrNone : Option Value → Bool
  | none => true
  | some (.float64 _) => true
  | some _ => false

def isListOrNone : Option Value → Bool
  | none => true
  | some (.list _) => true
  | some _ => false

structure GatewayReadable (anns : Annotations) : Prop where
  stepSize : isFloatOrNone (anns.get "step_size") = true
  endTime : isFloatOrNone (anns.get "end_time") = true
  startTime : isFloatOrNone (anns.get "fmi_start_time") = true
  envvars : isListOrNone (anns.get "cmd_envvars") = true

/-- A stack with models, where those named `Gateway` have annotations that can be read. -/
structure StackReadable (stack : Stack) : Prop where
  models : stack.models.isSome = true
  gateways : ∀ model ∈ stack.models.getD [], model.name = "Gateway" →
    ∃ anns, model.annotations = some anns ∧ GatewayReadable anns

theorem floatAnnotation_ok_iff (anns : Annotations) (k : String) (value : Float64) :
    (∃ x, floatAnnotation anns k value = .ok x) ↔ isFloatOrNone (anns.get k) = true := by
  unfold floatAnnotation
  cases anns.get k with
  | none => simp [isFloatOrNone]
  | some v => cases v <;> simp [isFloatOrNone, Value.asFloat64]

theorem parseGateway_ok_iff {c : Gateway} {anns : Annotations} :
    (∃ d, c.parseGateway anns = .ok d) ↔ GatewayReadable anns := by
  unfold Gateway.parseGateway
  constructor
  · rintro ⟨d, ran⟩
    obtain ⟨stepSize, first, ran⟩ := bind_eq_ok.mp ran
    obtain ⟨endTime, second, ran⟩ := bind_eq_ok.mp ran
    obtain ⟨startTime, third, ran⟩ := bind_eq_ok.mp ran
    refine ⟨(floatAnnotation_ok_iff _ _ _).mp ⟨_, first⟩,
      (floatAnnotation_ok_iff _ _ _).mp ⟨_, second⟩,
      (floatAnnotation_ok_iff _ _ _).mp ⟨_, third⟩, ?_⟩
    cases envvars : anns.get "cmd_envvars" with
    | none => rfl
    | some v =>
        simp only [envvars] at ran
        cases v <;> first | rfl | cases ran
  · intro readable
    obtain ⟨stepSize, first⟩ := (floatAnnotation_ok_iff _ _ c.stepSize).mpr readable.stepSize
    obtain ⟨endTime, second⟩ := (floatAnnotation_ok_iff _ _ c.endTime).mpr readable.endTime
    obtain ⟨startTime, third⟩ := (floatAnnotation_ok_iff _ _ c.startTime).mpr readable.startTime
    simp only [first, second, third, ok_bind]
    have envvars := readable.envvars
    cases value : anns.get "cmd_envvars" with
    | none => exact ⟨_, rfl⟩
    | some v =>
        rw [value] at envvars
        cases v <;> first | exact ⟨_, rfl⟩ | cases envvars

theorem parseModels_ok_iff {c : Gateway} {models : List ModelInstance} :
    (∃ d, c.parseModels models = .ok d) ↔
      ∀ model ∈ models, model.name = "Gateway" →
        ∃ anns, model.annotations = some anns ∧ GatewayReadable anns := by
  induction models generalizing c with
  | nil => simp [Gateway.parseModels]
  | cons model models ih =>
      rw [List.forall_mem_cons, Gateway.parseModels]
      by_cases gateway : model.name = "Gateway"
      · rw [if_pos gateway]
        constructor
        · rintro ⟨d, ran⟩
          obtain ⟨anns, stored, ran⟩ := bind_eq_ok.mp ran
          obtain ⟨e, parsed, ran⟩ := bind_eq_ok.mp ran
          exact ⟨fun _ => ⟨anns, eq_some_of_deref stored, parseGateway_ok_iff.mp ⟨e, parsed⟩⟩,
            ih.mp ⟨d, ran⟩⟩
        · rintro ⟨first, rest⟩
          obtain ⟨anns, stored, readable⟩ := first gateway
          obtain ⟨e, parsed⟩ := (parseGateway_ok_iff (c := c)).mpr readable
          simp only [stored, deref, ok_bind, parsed]
          exact ih.mpr rest
      · rw [if_neg gateway, ih]
        exact ⟨fun rest => ⟨fun named => absurd named gateway, rest⟩, And.right⟩

def isRead {α : Type} : Option (Except String α) → Bool
  | none => true
  | some (.ok _) => true
  | some (.error _) => false

section Stack

variable {c : Gateway} {stack : Option (Except String Stack)}

theorem parseStack_noPanic_iff :
    Run.NoPanic (c.parseStack stack) ↔ ∀ s, stack = some (.ok s) → StackReadable s := by
  cases stack with
  | none => simpa [Gateway.parseStack] using Run.noPanic_ok c
  | some read =>
      cases read with
      | error message => simpa [Gateway.parseStack, Run.ofResult] using Run.noPanic_error _
      | ok s =>
          have once : (∀ t, some (Except.ok s : Except String Stack) = some (.ok t) →
              StackReadable t) ↔ StackReadable s := by
            constructor
            · intro all
              exact all s rfl
            · rintro readable t ⟨⟩
              exact readable
          rw [once]
          simp only [Gateway.parseStack, Run.ofResult, ok_bind, Run.noPanic_bind_iff,
            Run.noPanic_ofGo_iff, ofGo_eq_ok, parseModels_ok_iff]
          constructor
          · rintro ⟨⟨models, found⟩, later⟩
            have stored := eq_some_of_deref found
            refine ⟨by rw [stored]; rfl, ?_⟩
            rw [stored]
            exact later models found
          · intro readable
            obtain ⟨models, stored⟩ := Option.isSome_iff_exists.mp readable.models
            have gateways := readable.gateways
            simp only [stored, deref, Except.ok.injEq, exists_eq', true_and]
            rw [stored] at gateways
            rintro _ rfl
            exact gateways

/-- Reading a stack succeeds when its file is read and can be read at its types. -/
theorem parseStack_ok_iff :
    (∃ d, c.parseStack stack = .ok d) ↔
      isRead stack = true ∧ ∀ s, stack = some (.ok s) → StackReadable s := by
  rw [← parseStack_noPanic_iff (c := c)]
  cases stack with
  | none => simpa [Gateway.parseStack, isRead] using Run.noPanic_ok c
  | some read =>
      cases read with
      | error message => simp [Gateway.parseStack, Run.ofResult, isRead]
      | ok s =>
          simp only [Gateway.parseStack, Run.ofResult, ok_bind, isRead, true_and]
          constructor
          · rintro ⟨d, ran⟩
            rw [ran]
            exact Run.noPanic_ok d
          · intro kept
            rw [Run.noPanic_bind_iff] at kept
            obtain ⟨models, found⟩ := Run.noPanic_ofGo_iff.mp kept.1
            have found : Run.ofGo (deref s.models) = .ok models := ofGo_eq_ok.mpr found
            obtain ⟨d, ran⟩ := Run.noPanic_ofGo_iff.mp (kept.2 models found)
            refine ⟨d, ?_⟩
            rw [found, ok_bind]
            exact ofGo_eq_ok.mpr ran

end Stack

/-- A record with a name and a type; the header has the type `type`. -/
def recordReadable : List String → Bool
  | _ :: type :: _ =>
      let paramType := toLower (trimSpace type)
      paramType = "type" || paramType = "real" || paramType = "string"
  | _ => false

def ParametersReadable (parameters : Option (Except String (List (List String)))) : Prop :=
  isRead parameters = true ∧ ∀ records, parameters = some (.ok records) →
    ∀ record ∈ records, recordReadable record = true

theorem parseRecord_noPanic (c : Gateway) (record : List String) :
    Run.NoPanic (c.parseRecord record) := by
  unfold Gateway.parseRecord
  split
  · dsimp only
    split
    · exact Run.noPanic_ok _
    · split
      · exact Run.noPanic_ok _
      · split
        · exact Run.noPanic_ok _
        · exact Run.noPanic_error _
  · exact Run.noPanic_error _

theorem parseRecord_ok_iff {c : Gateway} {record : List String} :
    (∃ d, c.parseRecord record = .ok d) ↔ recordReadable record = true := by
  unfold Gateway.parseRecord
  split
  next name type rest =>
    simp only [recordReadable, Bool.or_eq_true, decide_eq_true_eq]
    split
    next header => simp [header]
    next not_header =>
      split
      next real => simp [real]
      next not_real =>
        split
        next string => simp [string]
        next not_string => simp [not_header, not_real, not_string]
  next malformed =>
    have short : recordReadable record = false := by
      unfold recordReadable
      split
      next name type rest => exact absurd rfl (malformed name type rest)
      next => rfl
    simp [short]

theorem parseRecords_noPanic (c : Gateway) (records : List (List String)) :
    Run.NoPanic (records.foldlM Gateway.parseRecord c) := by
  induction records generalizing c with
  | nil => exact Run.noPanic_ok c
  | cons record records ih =>
      rw [List.foldlM_cons, Run.noPanic_bind_iff]
      exact ⟨parseRecord_noPanic c record, fun d _ => ih d⟩

theorem parseRecords_ok_iff {c : Gateway} {records : List (List String)} :
    (∃ d, records.foldlM Gateway.parseRecord c = .ok d) ↔
      ∀ record ∈ records, recordReadable record = true := by
  induction records generalizing c with
  | nil => simp [pure_eq_ok]
  | cons record records ih =>
      rw [List.foldlM_cons, List.forall_mem_cons, ← parseRecord_ok_iff (c := c)]
      constructor
      · rintro ⟨d, ran⟩
        obtain ⟨e, parsed, ran⟩ := bind_eq_ok.mp ran
        exact ⟨⟨e, parsed⟩, ih.mp ⟨d, ran⟩⟩
      · rintro ⟨⟨e, parsed⟩, rest⟩
        rw [parsed, ok_bind]
        exact ih.mpr rest

theorem parseParametersCsv_noPanic (c : Gateway)
    (parameters : Option (Except String (List (List String)))) :
    Run.NoPanic (c.parseParametersCsv parameters) := by
  cases parameters with
  | none => exact Run.noPanic_ok c
  | some read =>
      rw [Gateway.parseParametersCsv, Run.noPanic_bind_iff]
      exact ⟨Run.noPanic_ofResult read, fun records _ => parseRecords_noPanic c records⟩

theorem parseParametersCsv_ok_iff {c : Gateway}
    {parameters : Option (Except String (List (List String)))} :
    (∃ d, c.parseParametersCsv parameters = .ok d) ↔ ParametersReadable parameters := by
  cases parameters with
  | none => simp [Gateway.parseParametersCsv, ParametersReadable, isRead]
  | some read =>
      cases read with
      | error message =>
          simp [Gateway.parseParametersCsv, Run.ofResult, ParametersReadable, isRead]
      | ok records =>
          simp only [Gateway.parseParametersCsv, Run.ofResult, ok_bind, parseRecords_ok_iff,
            ParametersReadable, isRead, true_and, Option.some.injEq, Except.ok.injEq]
          constructor
          · rintro all _ rfl
            exact all
          · intro all
            exact all records rfl

def Collects (args : Arguments) : Prop :=
  isRead args.stack = true ∧ ParametersReadable args.parameters

section Collect

variable {c : Gateway} {args : Arguments}

theorem collectParameters_noPanic_iff :
    Run.NoPanic (c.collectParameters args) ↔
      ∀ s, args.stack = some (.ok s) → StackReadable s := by
  rw [Gateway.collectParameters, Run.noPanic_bind_iff, parseStack_noPanic_iff]
  exact ⟨And.left, fun readable => ⟨readable, fun d _ => parseParametersCsv_noPanic d _⟩⟩

theorem collectParameters_ok_iff (readable : ∀ s, args.stack = some (.ok s) → StackReadable s) :
    (∃ d, c.collectParameters args = .ok d) ↔ Collects args := by
  constructor
  · rintro ⟨d, ran⟩
    obtain ⟨e, parsed, ran⟩ := bind_eq_ok.mp ran
    exact ⟨(parseStack_ok_iff.mp ⟨e, parsed⟩).1, parseParametersCsv_ok_iff.mp ⟨d, ran⟩⟩
  · rintro ⟨read, parameters⟩
    obtain ⟨e, parsed⟩ := parseStack_ok_iff (c := c.createRuntime args.runtime) |>.mpr
      ⟨read, readable⟩
    obtain ⟨d, ran⟩ := parseParametersCsv_ok_iff (c := e) |>.mpr parameters
    refine ⟨d, ?_⟩
    rw [Gateway.collectParameters]
    simp only [parsed, ok_bind]
    exact ran

end Collect

end DseFmi.Generate
