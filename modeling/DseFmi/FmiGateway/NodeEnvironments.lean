import DseFmi.FmiGateway.ModelStacks

/-!
# The environments of the models of a stack

A model with a name gets a process with its own variables, unless its document is stacked: the one
process of such a document has no variables, whatever its models list.
-/

namespace DseFmi.FmiGateway

open DseFmi.Fmu DseFmi.Library

/-- Where a model stands: in a document behind others, behind other models. -/
structure ModelPlace where
  docs : List (String × StackDoc)
  stackName : String
  doc : StackDoc
  models : List ModelNode
  model : ModelNode

structure ModelPlace.Within (place : ModelPlace) (input : ParserInput) (gwDoc : GatewayDoc) :
    Prop where
  document : place.docs ++ [(place.stackName, place.doc)] <+: stackDocs input gwDoc
  stack : place.doc.kind = some "Stack"
  listed : place.models ++ [place.model] <+: place.doc.models.getD []

section Node

variable (input : ParserInput) (gwDoc : GatewayDoc) (place : ModelPlace)

def ModelPlace.index : Nat :=
  (place.docs.flatMap (docModels input gwDoc)).length +
    if place.doc.stacked = some true then 0 else (place.models.filterMap ModelNode.name).length

/-- The process of a model, if it has a name and the session starts it. -/
def ModelPlace.process : Option WindowsModel :=
  if place.model.name.isSome then
    (startedModels ((parseModelStacks input gwDoc).getD []))[place.index input gwDoc]?
  else none

/-- The process of a model finds the entries of the session and one for each scalar. -/
def EnvironmentComplete (parent : ParentEnv) (mapping : YamlMapping) : Prop :=
  ∃ m, place.process input gwDoc = some m ∧ HoldsScalars parent mapping m.envar

variable {input gwDoc place}

theorem ModelPlace.Within.processes (within : place.Within input gwDoc) :
    ∃ later, (parseModelStacks input gwDoc).getD [] =
      place.docs.flatMap (docModels input gwDoc) ++
        (docModels input gwDoc (place.stackName, place.doc) ++ later) := by
  obtain ⟨rest, split⟩ := within.document
  refine ⟨rest.flatMap (docModels input gwDoc), ?_⟩
  rw [parseModelStacks_eq, ← split]
  simp

theorem ModelPlace.Within.models_eq (within : place.Within input gwDoc) :
    ∃ later, place.doc.models = some (place.models ++ place.model :: later) := by
  obtain ⟨later, split⟩ := within.listed
  cases models : place.doc.models with
  | none =>
      rw [models] at split
      simp at split
  | some models' =>
      rw [models, Option.getD_some] at split
      refine ⟨later, congrArg some ?_⟩
      rw [← split]
      simp

theorem ModelPlace.Within.docModels_stacked (within : place.Within input gwDoc)
    (stacked : place.doc.stacked = some true) :
    ∃ m, docModels input gwDoc (place.stackName, place.doc) = [m] ∧ m.envar = none := by
  obtain ⟨later, models⟩ := within.models_eq
  unfold docModels parseStackDoc parseModels
  rw [if_pos within.stack, models, stacked]
  simp [buildStackedModel, WindowsModel.zero]

theorem ModelPlace.Within.docModels_single (within : place.Within input gwDoc)
    (single : place.doc.stacked ≠ some true) (named : place.model.name.isSome = true) :
    ∃ before m later, docModels input gwDoc (place.stackName, place.doc) = before ++ m :: later ∧
      before.length = (place.models.filterMap ModelNode.name).length ∧
        (∀ b ∈ before, b.name.isSome = true) ∧ m.name.isSome = true ∧
          m.envar = generateModelEnvar place.model.env := by
  let generate := fun model : ModelNode =>
    gwfmuModelGenerator input gwDoc model (some place.doc) "MODELC_EXE_PATH"
  have generated (model : ModelNode) : (generate model).isSome = model.name.isSome := by
    simp [generate, gwfmuModelGenerator]
  have sameName {model : ModelNode} {m : WindowsModel} (made : generate model = some m) :
      m.name.isSome = true := by
    obtain ⟨name, _, rfl⟩ := Option.map_eq_some_iff.mp made
    rfl
  obtain ⟨m, made⟩ := Option.isSome_iff_exists.mp ((generated place.model).trans named)
  obtain ⟨later, models⟩ := within.models_eq
  refine ⟨place.models.filterMap generate, m, later.filterMap generate, ?_, ?_, ?_, sameName made,
    ?_⟩
  · have flag : ¬ place.doc.stacked.getD false = true := by
      cases given : place.doc.stacked with
      | none => exact Bool.false_ne_true
      | some b =>
          intro set
          exact single (given.trans (congrArg some set))
    unfold docModels parseStackDoc parseModels
    rw [if_pos within.stack, models]
    dsimp only
    rw [if_neg (by simp), if_neg flag, buildModels_eq, List.nil_append, List.filterMap_append,
      List.filterMap_cons_some made]
  · rw [List.length_filterMap_eq_countP, List.length_filterMap_eq_countP]
    congr 1
    funext model
    exact generated model
  · intro b member
    obtain ⟨model, _, made⟩ := List.mem_filterMap.mp member
    exact sameName made
  · obtain ⟨name, _, rfl⟩ := Option.map_eq_some_iff.mp made
    rfl

/-- The processes of documents have names when no document is a stacked one without any. -/
theorem flatMap_docModels_named {docs : List (String × StackDoc)} :
    (∀ m ∈ docs.flatMap (docModels input gwDoc), m.name.isSome = true) ↔
      ∀ entry ∈ docs, ¬ entry.2.Nameless := by
  simp only [List.mem_flatMap]
  constructor
  · intro named entry member nameless
    obtain ⟨m, made, unnamed⟩ := (docModels_contributes input gwDoc entry).nameless.mpr nameless
    rw [named m ⟨entry, member, made⟩] at unnamed
    cases unnamed
  · rintro named m ⟨entry, member, made⟩
    by_contra unnamed
    apply named entry member
    exact (docModels_contributes input gwDoc entry).nameless.mp ⟨m, made, by simpa using unnamed⟩

theorem ModelPlace.Within.process_single (within : place.Within input gwDoc)
    (single : place.doc.stacked ≠ some true) (named : place.model.name.isSome = true) :
    ∃ m, m.envar = generateModelEnvar place.model.env ∧
      ∀ m', place.process input gwDoc = some m' ↔
        (∀ entry ∈ place.docs, ¬ entry.2.Nameless) ∧ m = m' := by
  obtain ⟨later, processes⟩ := within.processes
  obtain ⟨before, m, behind, document, length, beforeNamed, mNamed, envar⟩ :=
    within.docModels_single single named
  refine ⟨m, envar, ?_⟩
  intro m'
  have split : (parseModelStacks input gwDoc).getD [] =
      (place.docs.flatMap (docModels input gwDoc) ++ before) ++ m :: (behind ++ later) := by
    rw [processes, document]
    simp
  have index : place.index input gwDoc =
      (place.docs.flatMap (docModels input gwDoc) ++ before).length := by
    rw [ModelPlace.index, if_neg single, List.length_append, length]
  rw [ModelPlace.process, if_pos named, startedModels, index, split,
    getElem?_takeWhile_append_cons, List.forall_mem_append, flatMap_docModels_named,
    and_iff_left beforeNamed, and_iff_right mNamed]

theorem ModelPlace.Within.process_stacked (within : place.Within input gwDoc)
    (stacked : place.doc.stacked = some true) {m : WindowsModel}
    (process : place.process input gwDoc = some m) : m.envar = none := by
  obtain ⟨later, processes⟩ := within.processes
  obtain ⟨own, document, envar⟩ := within.docModels_stacked stacked
  rw [ModelPlace.process] at process
  split at process
  · rw [startedModels, ModelPlace.index, if_pos stacked, Nat.add_zero, processes, document,
      List.singleton_append, getElem?_takeWhile_append_cons] at process
    obtain ⟨_, _, rfl⟩ := process
    exact envar
  · cases process

/-- A model finds its variables exactly when it has a process of its own that is started, the
scalars come first and their texts fit. -/
theorem environmentComplete_iff (parent : ParentEnv) (within : place.Within input gwDoc)
    {mapping : YamlMapping} (env : place.model.env = some (.mapping mapping)) :
    EnvironmentComplete input gwDoc place parent mapping ↔
      place.model.name.isSome = true ∧ place.doc.stacked ≠ some true ∧
        (∀ entry ∈ place.docs, ¬ entry.2.Nameless) ∧
          mapping.ScalarsFirst ∧ Allocatable mapping.scalars := by
  constructor
  · rintro ⟨m, process, holds⟩
    have single : place.doc.stacked ≠ some true := by
      intro stacked
      rw [within.process_stacked stacked process] at holds
      exact not_holdsScalars_none parent mapping holds
    have named : place.model.name.isSome = true := by
      rw [ModelPlace.process] at process
      split at process
      next named => exact named
      · cases process
    obtain ⟨own, envar, started⟩ := within.process_single single named
    obtain ⟨nameless, rfl⟩ := (started m).mp process
    rw [envar, env] at holds
    exact ⟨named, single, nameless, (generateModelEnvar_holdsScalars_iff parent mapping).mp holds⟩
  · rintro ⟨named, single, nameless, fits⟩
    obtain ⟨own, envar, started⟩ := within.process_single single named
    refine ⟨own, (started own).mpr ⟨nameless, rfl⟩, ?_⟩
    rw [envar, env]
    exact (generateModelEnvar_holdsScalars_iff parent mapping).mpr fits

end Node

def listFirst : YamlMapping where
  keys := [cString "PATHS", cString "MODE"]
  get k :=
    if k = cString "PATHS" then some .sequence
    else if k = cString "MODE" then some (.scalar (cString "MODE") (cString "a"))
    else none

def scalarEntries : YamlMapping where
  keys := [cString "MODE", cString "LEVEL"]
  get k :=
    if k = cString "MODE" then some (.scalar (cString "MODE") (cString "a"))
    else if k = cString "LEVEL" then some (.scalar (cString "LEVEL") (cString "4"))
    else none

def modelWithEnv (name : String) (mapping : YamlMapping) : ModelNode :=
  { fileModel (some name) ["model.yaml"] with env := some (.mapping mapping) }

/-- A stacked document, and one with a process for each model. -/
def envDocs : List StackDoc :=
  [stackDocument (some true) [modelWithEnv "Shared" scalarEntries],
    stackDocument none [modelWithEnv "Whole" scalarEntries, modelWithEnv "Gap" listFirst]]

def envFiles : ParserInput where
  getenv _ := none
  loadFile name := if name = "models.yaml" then some envDocs else none

def envGateway : GatewayDoc where
  modelStack := some "models.yaml"
  startRedis := some 0
  hasAnnotations := true
  env := none
  redispubsubUri := none
  redisUri := none
  simbus := none

theorem noEntries_nonempty : ∀ e ∈ ([] : List CString), e.bytes ≠ [] :=
  fun _ member => absurd member List.not_mem_nil

def noEntries : ParentEnv := ⟨[], noEntries_nonempty⟩

def secondDocument (models : List ModelNode) (model : ModelNode) : ModelPlace where
  docs := [("models.yaml", stackDocument (some true) [modelWithEnv "Shared" scalarEntries])]
  stackName := "models.yaml"
  doc := stackDocument none [modelWithEnv "Whole" scalarEntries, modelWithEnv "Gap" listFirst]
  models := models
  model := model

theorem stackDocs_envGateway :
    stackDocs envFiles envGateway = envDocs.map ("models.yaml", ·) := by
  have names : stackNames "models.yaml" = ["models.yaml"] := by decide +kernel
  simp [stackDocs, envGateway, names, envFiles]

theorem secondDocument_within {models : List ModelNode} {model : ModelNode}
    (listed : models ++ [model] <+:
      [modelWithEnv "Whole" scalarEntries, modelWithEnv "Gap" listFirst]) :
    (secondDocument models model).Within envFiles envGateway := by
  refine ⟨?_, rfl, listed⟩
  rw [stackDocs_envGateway]
  exact List.prefix_rfl

/-- A model does not find a scalar behind a list. -/
theorem environmentComplete_gap :
    let place := secondDocument [modelWithEnv "Whole" scalarEntries] (modelWithEnv "Gap" listFirst)
    place.Within envFiles envGateway ∧ place.model.env = some (.mapping listFirst) ∧
      ¬ EnvironmentComplete envFiles envGateway place noEntries listFirst := by
  intro place
  have within : place.Within envFiles envGateway := secondDocument_within List.prefix_rfl
  refine ⟨within, rfl, ?_⟩
  rintro ⟨m, process, holds⟩
  obtain ⟨own, envar, started⟩ := within.process_single (by decide) rfl
  obtain ⟨_, rfl⟩ := (started m).mp process
  rw [envar] at holds
  have first := ((generateModelEnvar_holdsScalars_iff noEntries listFirst).mp holds).1
  have gap : ¬ listFirst.ScalarsFirst := by
    unfold YamlMapping.ScalarsFirst
    decide
  exact gap first

theorem environmentComplete_iff_whole :
    EnvironmentComplete envFiles envGateway
      (secondDocument [] (modelWithEnv "Whole" scalarEntries)) noEntries scalarEntries := by
  have listed : [] ++ [modelWithEnv "Whole" scalarEntries] <+:
      [modelWithEnv "Whole" scalarEntries, modelWithEnv "Gap" listFirst] := ⟨_, rfl⟩
  have first : scalarEntries.ScalarsFirst := by
    unfold YamlMapping.ScalarsFirst
    decide
  have named : ¬ (stackDocument (some true) [modelWithEnv "Shared" scalarEntries]).Nameless := by
    rintro ⟨_, _, _, unnamed⟩
    cases unnamed
  have countable : Countable scalarEntries.scalars := by
    unfold Countable
    decide
  apply (environmentComplete_iff noEntries (secondDocument_within listed) rfl).mpr
  refine ⟨rfl, by decide, ?_, first, countable, by decide⟩
  intro entry member
  rw [List.mem_singleton.mp member]
  exact named

end DseFmi.FmiGateway
