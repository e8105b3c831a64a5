import DseFmi.FmiGateway.ModelEnvironment
import DseFmi.FmiGateway.SessionCleanup
import DseFmi.Library.TakeWhile

/-!
# The models of a session

The stack of the gateway names the files with the stacks of the models. A model gets a process of
its own, and the models of a stacked document share one. The session starts the processes up to
the first one without a name.
-/

namespace DseFmi.FmiGateway

open DseFmi.Fmu DseFmi.Library

/-- An entry of `spec/models`. The settings stand under `annotations/cli`, the others under
`runtime`. -/
structure ModelNode where
  name : Option String
  stepSize : Option Double
  endTime : Option Double
  logLevel : Option Int
  timeout : Option Double
  exe : Option String
  files : Option (List String)
  env : Option EnvNode

/-- A document of a stack. The settings stand under `spec/runtime/env`; there are no models when
`spec/models` is no sequence. -/
structure StackDoc where
  kind : Option String
  stacked : Option Bool
  stepSize : Option Double
  endTime : Option Double
  logLevel : Option Int
  timeout : Option Double
  modelcExePath : Option String
  models : Option (List ModelNode)

structure GatewayDoc where
  modelStack : Option String
  startRedis : Option UInt32
  hasAnnotations : Bool
  env : Option (List (String × String))
  redispubsubUri : Option String
  redisUri : Option String
  simbus : Option ModelNode

structure WindowsModel where
  exe : Option String
  args : Option String
  name : Option String
  stepSize : Double
  endTime : Double
  logLevel : Int
  yaml : Option String
  timeout : Double
  stacked : Bool
  envar : Option (List EnvarSlot)

def WindowsModel.zero : WindowsModel := ⟨none, none, none, 0, 0, 0, none, 0, false, none⟩

def defaultEndTime : Double := 0x40AC200000000000#64

def defaultStepSize : Double := 0x3F40624DD2F1A9FC#64

def defaultLogLevel : Int := 6

def defaultTimeout : Double := 0x404E000000000000#64

/-- The variables of the process, and the files below the resource location. -/
structure ParserInput where
  getenv : String → Option String
  loadFile : String → Option (List StackDoc)

section Parser

variable (input : ParserInput) (gwDoc : GatewayDoc)

/-- The path of a node, or else of the environment, or else of the stack of the gateway. -/
def getExe (own : Option String) (type : String) : Option String :=
  match own with
  | some exe => some exe
  | none =>
      match input.getenv type with
      | some exe => some exe
      | none => gwDoc.env.bind (List.lookup type)

def buildDelimitedStr (dest : Option String) (src delim : String) : String :=
  match dest with
  | none => src
  | some dest => (if dest ≠ "" then dest ++ delim else "") ++ src

def generateYamlFiles (model : ModelNode) : Option String :=
  model.files.bind fun files =>
    files.foldl (fun yaml file => some (buildDelimitedStr yaml file " ")) none

/-- A timeout comes from the model, or else from its stack. -/
def gwfmuModelGenerator (model : ModelNode) (doc : Option StackDoc) (exe : String) :
    Option WindowsModel :=
  model.name.map fun name =>
    { WindowsModel.zero with
      name := some name
      stepSize := model.stepSize.getD defaultStepSize
      endTime := model.endTime.getD defaultEndTime
      logLevel := model.logLevel.getD defaultLogLevel
      timeout := model.timeout.getD ((doc.bind StackDoc.timeout).getD defaultTimeout)
      exe := getExe input gwDoc model.exe exe
      yaml := generateYamlFiles model
      envar := generateModelEnvar model.env }

def buildModels (doc : StackDoc) (models : List ModelNode) (list : List WindowsModel) :
    List WindowsModel :=
  models.foldl (fun list model =>
    match gwfmuModelGenerator input gwDoc model (some doc) "MODELC_EXE_PATH" with
    | some wModel => list ++ [wModel]
    | none => list) list

def stackedRound (s : Option String × Option String) (model : ModelNode) :
    Option String × Option String :=
  match model.name with
  | none => s
  | some name =>
      let names := some (buildDelimitedStr s.2 name ",")
      match generateYamlFiles model with
      | some yaml => (some (buildDelimitedStr s.1 yaml " "), names)
      | none => (s.1, names)

def buildStackedModel (stackName : String) (doc : StackDoc) (models : List ModelNode)
    (list : List WindowsModel) : List WindowsModel :=
  let (yaml, names) := models.foldl stackedRound (some (buildDelimitedStr none stackName " "), none)
  list ++ [{ WindowsModel.zero with
    name := names
    yaml := yaml
    stacked := true
    stepSize := doc.stepSize.getD defaultStepSize
    endTime := doc.endTime.getD defaultEndTime
    logLevel := doc.logLevel.getD defaultLogLevel
    timeout := doc.timeout.getD defaultTimeout
    exe := getExe input gwDoc doc.modelcExePath "MODELC_EXE_PATH" }]

def parseModels (stackName : String) (doc : StackDoc) (list : List WindowsModel) (stacked : Bool) :
    List WindowsModel :=
  match doc.models with
  | none => list
  | some models =>
      if models.isEmpty then list
      else if stacked then buildStackedModel input gwDoc stackName doc models list
      else buildModels input gwDoc doc models list

def parseStackDoc (stackName : String) (list : List WindowsModel) (doc : StackDoc) :
    List WindowsModel :=
  if doc.kind = some "Stack" then
    parseModels input gwDoc stackName doc list (doc.stacked.getD false)
  else list

def parseStack (list : List WindowsModel) (stackName : String) : List WindowsModel :=
  match input.loadFile stackName with
  | none => list
  | some docs => docs.foldl (parseStackDoc input gwDoc stackName) list

/-- The tokens of `strtok_r` between semicolons and commas. -/
def stackNames (modelStack : String) : List String :=
  ((modelStack.toList.splitOnP fun c => c = ';' ∨ c = ',').filter fun name =>
    !name.isEmpty).map String.ofList

/-- `session->w_models`, without the entry that ends the array; `none` for `NULL`. -/
def parseModelStacks : Option (List WindowsModel) :=
  gwDoc.modelStack.map fun modelStack =>
    (stackNames modelStack).foldl (parseStack input gwDoc) []

def parseSimbus : Option WindowsModel :=
  gwDoc.simbus.bind fun simbus => gwfmuModelGenerator input gwDoc simbus none "SIMBUS_EXE_PATH"

/-- The text behind the second colon of a URI. -/
def redisPort (uri : Option String) : String :=
  match uri.map fun uri => (uri.toList.dropWhile (· ≠ ':')).tail.dropWhile (· ≠ ':') with
  | some (_ :: port) => String.ofList port
  | _ => "6379"

/-- Without `spec/runtime/env` and without an executable there is no transport. -/
def parseRedis : Option WindowsModel :=
  gwDoc.env.bind fun env =>
    let exe := (input.getenv "REDIS_EXE_PATH").or (env.lookup "REDIS_EXE_PATH")
    exe.map fun exe =>
      { WindowsModel.zero with
        args := some (redisPort (gwDoc.redispubsubUri.or gwDoc.redisUri))
        endTime := defaultEndTime
        name := some "transport"
        exe := some exe }

def stackTransport : Option WindowsModel :=
  if gwDoc.hasAnnotations && gwDoc.startRedis.getD 1 ≠ 0 then parseRedis input gwDoc else none

end Parser

/-- The loops over the models end at a model without a name. -/
def startedModels (models : List WindowsModel) : List WindowsModel :=
  models.takeWhile fun m => m.name.isSome

def gatewayStack (input : ParserInput) (gwDoc : GatewayDoc) : FmiGatewaySession where
  transport := (stackTransport input gwDoc).isSome
  simbus := (parseSimbus input gwDoc).isSome
  wModels := (parseModelStacks input gwDoc).map fun models => (startedModels models).length

/-- The instances that a process runs, by the option `--name`. -/
def WindowsModel.instances (m : WindowsModel) : List String :=
  match m.name with
  | none => []
  | some name => (name.toList.splitOn ',').map String.ofList

def StackDoc.instances (doc : StackDoc) : List String :=
  if doc.kind = some "Stack" then (doc.models.getD []).filterMap ModelNode.name else []

/-- A stacked document with models of which none has a name. -/
def StackDoc.Nameless (doc : StackDoc) : Prop :=
  doc.kind = some "Stack" ∧ doc.stacked = some true ∧ doc.models.getD [] ≠ [] ∧
    (doc.models.getD []).filterMap ModelNode.name = []

def PlainName (name : String) : Prop := name ≠ "" ∧ ',' ∉ name.toList

instance (name : String) : Decidable (PlainName name) := inferInstanceAs (Decidable (_ ∧ _))

/-- The documents of the stacks, in the order in which they are parsed. -/
def stackDocs (input : ParserInput) (gwDoc : GatewayDoc) : List (String × StackDoc) :=
  ((gwDoc.modelStack.map stackNames).getD []).flatMap fun stackName =>
    ((input.loadFile stackName).getD []).map (stackName, ·)

def launchedInstances (input : ParserInput) (gwDoc : GatewayDoc) (events : List Event) :
    List String :=
  events.flatMap fun
    | .launch (.model i) =>
        (((parseModelStacks input gwDoc).getD [])[i]?.map WindowsModel.instances).getD []
    | _ => []

theorem splitOn_plain {name : List Char} (plain : ',' ∉ name) : name.splitOn ',' = [name] := by
  rw [List.splitOn_eq_splitOnP]
  apply List.splitOnP_eq_singleton
  intro c member
  exact decide_eq_false fun comma => plain (comma ▸ member)

theorem splitOn_joined {name : List Char} {names : List (List Char)}
    (plain : ∀ n ∈ name :: names, ',' ∉ n) :
    (name ++ names.flatMap (',' :: ·)).splitOn ',' = name :: names := by
  induction names generalizing name with
  | nil => simpa using splitOn_plain (plain name List.mem_cons_self)
  | cons next names ih =>
      have rest := ih fun n member => plain n (List.mem_cons_of_mem _ member)
      have front := splitOn_plain (plain name List.mem_cons_self)
      rw [List.splitOn_eq_splitOnP] at front rest ⊢
      rw [List.flatMap_cons, List.cons_append,
        List.splitOnP_append_cons name _ (decide_eq_true rfl), front, rest]
      rfl

theorem foldl_buildDelimitedStr (delim : String) (name : String) (names : List String)
    (nonempty : ∀ n ∈ name :: names, n ≠ "") :
    ∃ text, names.foldl (fun dest n => some (buildDelimitedStr dest n delim)) (some name) =
        some text ∧
      text.toList = name.toList ++ names.flatMap fun n => delim.toList ++ n.toList := by
  induction names generalizing name with
  | nil => exact ⟨name, rfl, by simp⟩
  | cons next names ih =>
      have first := nonempty name List.mem_cons_self
      have second := nonempty next (List.mem_cons_of_mem _ List.mem_cons_self)
      have joined : buildDelimitedStr (some name) next delim = name ++ delim ++ next := by
        rw [buildDelimitedStr, if_pos first]
      have shown : name ++ delim ++ next ≠ "" := by
        intro empty
        apply first
        have letters := congrArg String.toList empty
        simp only [String.toList_append, List.append_assoc, String.toList_empty,
          List.append_eq_nil_iff, String.toList_eq_nil_iff] at letters
        exact letters.1
      obtain ⟨text, folded, letters⟩ := ih (name ++ delim ++ next) (by
        intro n member
        cases List.mem_cons.mp member with
        | inl same => exact same ▸ shown
        | inr later => exact nonempty n (by simp [later]))
      refine ⟨text, ?_, ?_⟩
      · rw [List.foldl_cons, joined, folded]
      · rw [letters]
        simp

theorem instances_joined {names : List String} (plain : ∀ n ∈ names, PlainName n)
    {m : WindowsModel}
    (listed : m.name = names.foldl (fun dest n => some (buildDelimitedStr dest n ",")) none) :
    m.instances = names := by
  cases names with
  | nil => rw [WindowsModel.instances, listed, List.foldl_nil]
  | cons name names =>
      obtain ⟨text, joined, letters⟩ := foldl_buildDelimitedStr "," name names
        fun n member => (plain n member).1
      have named : m.name = some text := listed.trans joined
      have comma : (fun n : String => ",".toList ++ n.toList) = fun n => ',' :: n.toList := by
        funext n
        rfl
      have split : text.toList.splitOn ',' = name.toList :: names.map String.toList := by
        rw [letters, comma, ← List.flatMap_map String.toList]
        apply splitOn_joined
        intro n member
        rw [← List.map_cons] at member
        obtain ⟨own, listed, rfl⟩ := List.mem_map.mp member
        exact (plain own listed).2
      rw [WindowsModel.instances, named]
      simp [split, Function.comp_def]

section Contribution

variable (input : ParserInput) (gwDoc : GatewayDoc)

def docModels (entry : String × StackDoc) : List WindowsModel :=
  parseStackDoc input gwDoc entry.1 [] entry.2

theorem buildModels_eq (doc : StackDoc) (models : List ModelNode) (list : List WindowsModel) :
    buildModels input gwDoc doc models list =
      list ++ models.filterMap fun model =>
        gwfmuModelGenerator input gwDoc model (some doc) "MODELC_EXE_PATH" := by
  unfold buildModels
  induction models generalizing list with
  | nil => simp
  | cons model models ih =>
      rw [List.foldl_cons, ih]
      cases generated : gwfmuModelGenerator input gwDoc model (some doc) "MODELC_EXE_PATH" with
      | none => simp [generated]
      | some wModel => simp [generated]

theorem parseStackDoc_append (stackName : String) (doc : StackDoc) (list : List WindowsModel) :
    parseStackDoc input gwDoc stackName list doc =
      list ++ docModels input gwDoc (stackName, doc) := by
  unfold docModels parseStackDoc parseModels
  dsimp only
  cases doc.models with
  | none => simp
  | some models =>
      dsimp only
      split
      · split
        · simp
        · split
          · simp [buildStackedModel]
          · rw [buildModels_eq, buildModels_eq, List.nil_append]
      · simp

/-- The processes are those of the documents, one document after the other. -/
theorem parseModelStacks_eq :
    (parseModelStacks input gwDoc).getD [] =
      (stackDocs input gwDoc).flatMap (docModels input gwDoc) := by
  have documents (stackName : String) (list : List WindowsModel) :
      parseStack input gwDoc list stackName = list ++
        (((input.loadFile stackName).getD []).map (stackName, ·)).flatMap
          (docModels input gwDoc) := by
    unfold parseStack
    cases input.loadFile stackName with
    | none => simp
    | some docs =>
        have round : parseStackDoc input gwDoc stackName =
            fun list doc => list ++ docModels input gwDoc (stackName, doc) := by
          funext list doc
          exact parseStackDoc_append input gwDoc stackName doc list
        dsimp only
        rw [round, List.foldl_append_eq_append, ← List.flatMap_def, Option.getD_some,
          List.flatMap_map]
  have stack : parseStack input gwDoc = fun list stackName => list ++
      (((input.loadFile stackName).getD []).map (stackName, ·)).flatMap
        (docModels input gwDoc) := by
    funext list stackName
    exact documents stackName list
  unfold parseModelStacks stackDocs
  cases gwDoc.modelStack with
  | none => rfl
  | some modelStack =>
      rw [stack, Option.map_some, Option.getD_some, List.foldl_append_eq_append,
        ← List.flatMap_def, List.nil_append, Option.map_some, Option.getD_some, List.flatMap_assoc]

theorem stackedRound_names (models : List ModelNode) (yaml names : Option String) :
    (models.foldl stackedRound (yaml, names)).2 =
      (models.filterMap ModelNode.name).foldl
        (fun dest n => some (buildDelimitedStr dest n ",")) names := by
  induction models generalizing yaml names with
  | nil => rfl
  | cons model models ih =>
      rw [List.foldl_cons]
      cases named : model.name with
      | none =>
          have same : stackedRound (yaml, names) model = (yaml, names) := by
            rw [stackedRound, named]
          rw [same, ih, List.filterMap_cons_none named]
      | some name =>
          obtain ⟨files, round⟩ : ∃ files, stackedRound (yaml, names) model =
              (files, some (buildDelimitedStr names name ",")) := by
            rw [stackedRound, named]
            dsimp only
            split
            · exact ⟨_, rfl⟩
            · exact ⟨_, rfl⟩
          rw [round, ih, List.filterMap_cons_some named, List.foldl_cons]

theorem foldl_joined_isSome (names : List String) (dest : Option String) :
    (names.foldl (fun dest n => some (buildDelimitedStr dest n ",")) dest).isSome =
      (dest.isSome || !names.isEmpty) := by
  induction names generalizing dest with
  | nil => simp
  | cons name names ih =>
      rw [List.foldl_cons, ih]
      simp

structure Contributes (doc : StackDoc) (models : List WindowsModel) : Prop where
  instances : (∀ n ∈ doc.instances, PlainName n) →
    models.flatMap WindowsModel.instances = doc.instances
  named : (∃ m ∈ models, m.name.isSome = true) ↔ doc.instances ≠ []
  nameless : (∃ m ∈ models, m.name.isSome = false) ↔ doc.Nameless
  ordered : models.Pairwise fun x y => y.name.isSome = true → x.name.isSome = true

theorem contributes_nothing {doc : StackDoc} (nothing : doc.instances = [])
    (other : ¬ doc.Nameless) : Contributes doc [] := by
  refine ⟨?_, ?_, ?_, List.Pairwise.nil⟩
  · intro plain
    rw [nothing]
    rfl
  · simp [nothing]
  · simp [other]

theorem contributes_stacked {doc : StackDoc} {models : List ModelNode} {m : WindowsModel}
    (stack : doc.kind = some "Stack") (stacked : doc.stacked = some true)
    (listed : doc.models = some models) (filled : models ≠ [])
    (name : m.name = (models.filterMap ModelNode.name).foldl
      (fun dest n => some (buildDelimitedStr dest n ",")) none) : Contributes doc [m] := by
  have described : doc.instances = models.filterMap ModelNode.name := by
    rw [StackDoc.instances, if_pos stack, listed]
    rfl
  have shown : m.name.isSome = !(models.filterMap ModelNode.name).isEmpty := by
    rw [name, foldl_joined_isSome]
    rfl
  refine ⟨?_, ?_, ?_, List.pairwise_singleton _ _⟩
  · intro plain
    rw [described] at plain ⊢
    simpa using instances_joined plain name
  · simp [described, shown]
  · have unnamed : m.name.isSome = false ↔ models.filterMap ModelNode.name = [] := by
      rw [shown, Bool.not_eq_false', List.isEmpty_iff]
    rw [List.exists_mem_cons_iff, unnamed]
    simp [StackDoc.Nameless, stack, stacked, listed, filled]

theorem gwfmuModelGenerator_cases (model : ModelNode) (doc : Option StackDoc) (exe : String) :
    (model.name = none ∧ gwfmuModelGenerator input gwDoc model doc exe = none) ∨
      ∃ text m, model.name = some text ∧
        gwfmuModelGenerator input gwDoc model doc exe = some m ∧ m.name = some text := by
  unfold gwfmuModelGenerator
  cases model.name with
  | none => exact .inl ⟨rfl, rfl⟩
  | some text => exact .inr ⟨text, _, rfl, rfl, rfl⟩

theorem contributes_models {doc : StackDoc} {models : List ModelNode}
    {generate : ModelNode → Option WindowsModel} (stack : doc.kind = some "Stack")
    (single : doc.stacked ≠ some true) (listed : doc.models = some models)
    (generated : ∀ model, (model.name = none ∧ generate model = none) ∨
      ∃ text m, model.name = some text ∧ generate model = some m ∧ m.name = some text) :
    Contributes doc (models.filterMap generate) := by
  have described : doc.instances = models.filterMap ModelNode.name := by
    rw [StackDoc.instances, if_pos stack, listed]
    rfl
  have isSome : ∀ m ∈ models.filterMap generate, m.name.isSome = true := by
    intro m member
    obtain ⟨model, -, made⟩ := List.mem_filterMap.mp member
    rcases generated model with ⟨-, nothing⟩ | ⟨text, m', -, made', name⟩
    · cases nothing.symm.trans made
    · cases made'.symm.trans made
      rw [name]
      rfl
  refine ⟨?_, ?_, ?_, ?_⟩
  · intro plain
    rw [described] at plain ⊢
    clear described listed isSome
    induction models with
    | nil => rfl
    | cons model models ih =>
        rcases generated model with ⟨unnamed, nothing⟩ | ⟨text, m, named, made, name⟩
        · rw [List.filterMap_cons_none nothing]
          rw [List.filterMap_cons_none unnamed] at plain ⊢
          exact ih plain
        · rw [List.filterMap_cons_some made, List.flatMap_cons]
          rw [List.filterMap_cons_some named] at plain ⊢
          have alone : m.instances = [text] := by
            rw [WindowsModel.instances, name]
            simp [splitOn_plain (plain text List.mem_cons_self).2]
          rw [alone, ih fun n member => plain n (List.mem_cons_of_mem _ member)]
          rfl
  · rw [described, Ne, List.filterMap_eq_nil_iff]
    push Not
    constructor
    · rintro ⟨m, member, -⟩
      obtain ⟨model, listed, made⟩ := List.mem_filterMap.mp member
      refine ⟨model, listed, ?_⟩
      rcases generated model with ⟨-, nothing⟩ | ⟨text, -, named, -⟩
      · cases nothing.symm.trans made
      · rw [named]
        exact Option.some_ne_none text
    · rintro ⟨model, listed, named⟩
      rcases generated model with ⟨unnamed, -⟩ | ⟨text, m, -, made, -⟩
      · exact absurd unnamed named
      · have member := List.mem_filterMap.mpr ⟨model, listed, made⟩
        exact ⟨m, member, isSome m member⟩
  · constructor
    · rintro ⟨m, member, unnamed⟩
      rw [isSome m member] at unnamed
      cases unnamed
    · rintro ⟨-, stacked, -⟩
      exact absurd stacked single
  · apply List.pairwise_of_forall_mem_list
    intro m member _ _ _
    exact isSome m member

theorem docModels_contributes (entry : String × StackDoc) :
    Contributes entry.2 (docModels input gwDoc entry) := by
  obtain ⟨stackName, doc⟩ := entry
  unfold docModels parseStackDoc parseModels
  dsimp only
  by_cases stack : doc.kind = some "Stack"
  · rw [if_pos stack]
    cases listed : doc.models with
    | none =>
        apply contributes_nothing
        · simp [StackDoc.instances, listed]
        · simp [StackDoc.Nameless, listed]
    | some models =>
        dsimp only
        by_cases empty : models.isEmpty = true
        · rw [if_pos empty]
          rw [List.isEmpty_iff.mp empty] at listed
          apply contributes_nothing
          · simp [StackDoc.instances, listed]
          · simp [StackDoc.Nameless, listed]
        · rw [if_neg empty]
          have filled : models ≠ [] := fun same => empty (List.isEmpty_iff.mpr same)
          by_cases stacked : doc.stacked = some true
          · have flag : doc.stacked.getD false = true := by rw [stacked]; rfl
            rw [if_pos flag]
            exact contributes_stacked stack stacked listed filled (stackedRound_names _ _ _)
          · have flag : ¬ doc.stacked.getD false = true := by
              cases given : doc.stacked with
              | none => exact Bool.false_ne_true
              | some b =>
                  intro set
                  exact stacked (given.trans (congrArg some set))
            rw [if_neg flag, buildModels_eq, List.nil_append]
            exact contributes_models stack stacked listed fun model =>
              gwfmuModelGenerator_cases input gwDoc model (some doc) "MODELC_EXE_PATH"
  · rw [if_neg stack]
    apply contributes_nothing
    · simp [StackDoc.instances, stack]
    · simp [StackDoc.Nameless, stack]

end Contribution

theorem flatMap_range_getElem? {α β : Type} (xs : List α) (f : α → List β) (n : Nat) :
    ((List.range n).flatMap fun i => (xs[i]?.map f).getD []) = (xs.take n).flatMap f := by
  induction n with
  | zero => simp
  | succ n ih =>
      have last : (xs[n]?.toList).flatMap f = (xs[n]?.map f).getD [] := by
        cases xs[n]? <;> simp
      rw [List.range_succ, List.flatMap_append, ih, List.take_add_one, List.flatMap_append, last]
      simp

section Launches

variable (input : ParserInput) (gwDoc : GatewayDoc)

theorem launchedInstances_eq {env : Surroundings} {upcase : String → String}
    (windows : env.platform = .win32 upcase) (created : ∀ p, env.created p = true) :
    launchedInstances input gwDoc (fmigatewayStartModels env (some (gatewayStack input gwDoc))) =
      (startedModels ((parseModelStacks input gwDoc).getD [])).flatMap WindowsModel.instances := by
  have all : (gatewayStack input gwDoc).processes.filter env.created =
      (gatewayStack input gwDoc).processes := List.filter_eq_self.mpr fun p _ => created p
  have count : (gatewayStack input gwDoc).wModels.getD 0 =
      (startedModels ((parseModelStacks input gwDoc).getD [])).length := by
    unfold gatewayStack
    cases parseModelStacks input gwDoc <;> rfl
  have taken : ((parseModelStacks input gwDoc).getD []).take
      (startedModels ((parseModelStacks input gwDoc).getD [])).length =
        startedModels ((parseModelStacks input gwDoc).getD []) := take_length_takeWhile _
  have launches : launchedInstances input gwDoc ((gatewayStack input gwDoc).models.map .launch) =
      (startedModels ((parseModelStacks input gwDoc).getD [])).flatMap WindowsModel.instances := by
    rw [← taken, ← flatMap_range_getElem?, FmiGatewaySession.models, count]
    simp [launchedInstances, List.flatMap_map]
  have events : fmigatewayStartModels env (some (gatewayStack input gwDoc)) =
      (gatewayStack input gwDoc).processes.map .launch := by
    unfold fmigatewayStartModels
    rw [windows]
    exact congrArg (List.map Event.launch) all
  rw [events, FmiGatewaySession.processes, List.map_append]
  unfold launchedInstances at launches ⊢
  rw [List.flatMap_append, launches, List.map_append, List.flatMap_append]
  have others : ∀ (b : Bool) (p : Process), (∀ i, p ≠ .model i) →
      ((if b then [p] else []).map Event.launch).flatMap (fun
        | .launch (.model i) =>
            (((parseModelStacks input gwDoc).getD [])[i]?.map WindowsModel.instances).getD []
        | _ => []) = [] := by
    intro b p other
    cases b with
    | false => rfl
    | true =>
        cases p with
        | model i => exact absurd rfl (other i)
        | simer cmd => rfl
        | transport => rfl
        | simbus => rfl
  rw [others _ _ (by simp), others _ _ (by simp)]
  rfl

/-- The processes run the models of the stacks in their order, and they run all of them exactly
when no document with a named model follows a stacked one without any. -/
theorem gatewayStack_launches {env : Surroundings} {upcase : String → String}
    (windows : env.platform = .win32 upcase) (created : ∀ p, env.created p = true)
    (plain : ∀ entry ∈ stackDocs input gwDoc, ∀ n ∈ entry.2.instances, PlainName n) :
    let launched := launchedInstances input gwDoc
      (fmigatewayStartModels env (some (gatewayStack input gwDoc)))
    let described := (stackDocs input gwDoc).flatMap fun entry => entry.2.instances
    launched <+: described ∧
      (launched = described ↔ (stackDocs input gwDoc).Pairwise fun d e =>
        e.2.instances ≠ [] → ¬ d.2.Nameless) := by
  intro launched described
  have contributes := docModels_contributes input gwDoc
  have all : ((parseModelStacks input gwDoc).getD []).flatMap WindowsModel.instances =
      described := by
    rw [parseModelStacks_eq, List.flatMap_assoc]
    exact List.flatMap_congr fun entry member =>
      (contributes entry).instances (plain entry member)
  have started : launched = (startedModels ((parseModelStacks input gwDoc).getD [])).flatMap
      WindowsModel.instances := launchedInstances_eq input gwDoc windows created
  rw [started, ← all]
  constructor
  · obtain ⟨rest, split⟩ := List.takeWhile_prefix (l := (parseModelStacks input gwDoc).getD [])
      fun m : WindowsModel => m.name.isSome
    refine ⟨rest.flatMap WindowsModel.instances, ?_⟩
    rw [startedModels, ← List.flatMap_append, split]
  · have named : ∀ m : WindowsModel, m.instances ≠ [] ↔ m.name.isSome = true := by
      intro m
      rw [WindowsModel.instances]
      cases m.name with
      | none => simp
      | some name => simp [List.splitOn_eq_splitOnP]
    rw [startedModels, flatMap_takeWhile_eq_iff named, parseModelStacks_eq, List.pairwise_flatMap,
      and_iff_right fun entry _ => (contributes entry).ordered]
    apply List.Pairwise.iff
    intro d e
    constructor
    · intro ordered later nameless
      obtain ⟨y, memberY, namedY⟩ := (contributes e).named.mpr later
      obtain ⟨x, memberX, unnamedX⟩ := (contributes d).nameless.mpr nameless
      have namedX := ordered x memberX y memberY namedY
      rw [unnamedX] at namedX
      cases namedX
    · intro ordered x memberX y memberY namedY
      by_contra unnamedX
      exact ordered ((contributes e).named.mp ⟨y, memberY, namedY⟩)
        ((contributes d).nameless.mp ⟨x, memberX, by simpa using unnamedX⟩)

end Launches

def fileModel (name : Option String) (files : List String) : ModelNode :=
  ⟨name, none, none, none, none, none, some files, none⟩

def stackDocument (stacked : Option Bool) (models : List ModelNode) : StackDoc :=
  ⟨some "Stack", stacked, none, none, none, none, none, some models⟩

def twoStacks : GatewayDoc where
  modelStack := some "models.yaml;bus.yaml"
  startRedis := some 0
  hasAnnotations := true
  env := none
  redispubsubUri := some "redis://localhost:6379"
  redisUri := none
  simbus := some (fileModel (some "simbus") ["stack.yaml"])

def twoStackFiles : ParserInput where
  getenv _ := none
  loadFile name :=
    if name = "models.yaml" then
      some [stackDocument none [fileModel (some "Model_1") ["stack.yaml", "model.yaml"]],
        stackDocument (some true) [fileModel (some "Model_2") ["Model_2.yaml"],
          fileModel (some "Model_3") ["Model_3.yaml", "signalgroup_3.yaml"]]]
    else if name = "bus.yaml" then
      some [stackDocument (some true) [fileModel none ["bus.yaml"]]]
    else none

/-- The last document has no named model, and nothing follows it. -/
theorem gatewayStack_launches_twoStacks :
    let launched := launchedInstances twoStackFiles twoStacks
      (fmigatewayStartModels (windows 0) (some (gatewayStack twoStackFiles twoStacks)))
    let described := (stackDocs twoStackFiles twoStacks).flatMap fun entry => entry.2.instances
    launched <+: described ∧
      (launched = described ↔ (stackDocs twoStackFiles twoStacks).Pairwise fun d e =>
        e.2.instances ≠ [] → ¬ d.2.Nameless) :=
  gatewayStack_launches twoStackFiles twoStacks rfl (fun _ => rfl) (by decide +kernel)

example : launchedInstances twoStackFiles twoStacks
    (fmigatewayStartModels (windows 0) (some (gatewayStack twoStackFiles twoStacks))) =
      ["Model_1", "Model_2", "Model_3"] := by decide +kernel

end DseFmi.FmiGateway
