import DseFmi.FmiGateway.ParseFmi
import DseFmi.Generate.ValueReferences

/-!
# The parameters a generator collects

The runtime `simer` has the first two parameters: the selector of its command with the
reference 0 and the command with the reference 1. Only parameters have annotations for the
gateway in the model description.
-/

namespace DseFmi.FmiGateway

open DseFmi.Generate DseFmi.Library

/-- A parameter with another reference than the given one. -/
def ParameterWithout (vref : Nat) (s : Signal) : Prop :=
  ∃ name other start key, other ≠ vref ∧ s = parameter name other start key

/-- The parameters of the runtime `simer` are collected, under fixed references. -/
structure SimerCollected (c : Gateway) : Prop where
  counter : 2 ≤ c.signalIdx
  selector : parameter "Simer_Command_Selector" 0 none simerParameter ∈ c.realParams
  command : parameter "Simer_Command" 1 none simerParameter ∈ c.stringParams
  real : ∀ s ∈ c.realParams, ParameterWithout 1 s
  string : ∀ s ∈ c.stringParams, ParameterWithout 0 s
  annotations : c.annotations = (newFmiGatewayCommand.createRuntime "simer").annotations

theorem simerCollected_createRuntime :
    SimerCollected (newFmiGatewayCommand.createRuntime "simer") where
  counter := Nat.le_refl 2
  selector := List.mem_singleton.mpr rfl
  command := List.mem_singleton.mpr rfl
  real s member := ⟨_, 0, none, _, by decide, List.mem_singleton.mp member⟩
  string s member := ⟨_, 1, none, _, by decide, List.mem_singleton.mp member⟩
  annotations := rfl

theorem SimerCollected.addParameter {c : Gateway} (collected : SimerCollected c)
    (type : ParameterType) (name : String) (start : Option String) (key : String) :
    SimerCollected (c.addParameter type name start key) := by
  have counter := collected.counter
  cases type with
  | real =>
      refine ⟨Nat.le_succ_of_le counter, List.mem_append_left _ collected.selector,
        collected.command, ?_, collected.string, collected.annotations⟩
      intro s member
      cases List.mem_append.mp member with
      | inl old => exact collected.real s old
      | inr new => exact ⟨_, _, _, _, by omega, List.mem_singleton.mp new⟩
  | string =>
      refine ⟨Nat.le_succ_of_le counter, collected.selector,
        List.mem_append_left _ collected.command, collected.real, ?_, collected.annotations⟩
      intro s member
      cases List.mem_append.mp member with
      | inl old => exact collected.string s old
      | inr new => exact ⟨_, _, _, _, by omega, List.mem_singleton.mp new⟩

theorem simerCollected_collected : Collected SimerCollected where
  times _ _ _ _ collected :=
    ⟨collected.counter, collected.selector, collected.command, collected.real, collected.string,
      collected.annotations⟩
  parameter _ type name start collected :=
    collected.addParameter type name (some start) scriptParameter

structure XmlParameter.Describes (p : XmlParameter) (s : Signal) : Prop where
  name : p.name = s.signal
  valueReference : p.valueReference = vrefText s

structure Described (signals : List Signal) (ps : List XmlParameter) : Prop where
  sound : ∀ p ∈ ps, ∃ s ∈ signals, p.Describes s
  complete : ∀ s ∈ signals, ∃ p ∈ ps, p.Describes s

/-- What a document says about a command: its annotations, and its parameters among which the
reals of the signal groups stand without annotations. -/
structure DocumentOf (c : Gateway) (annotations : List (String × String)) (xml : FmuXml) :
    Prop where
  annotations : configAnnotations xml = annotations
  string : Described c.stringParams (xmlParameters .string xml)
  real : ∃ collected grouped, xmlParameters .real xml = collected ++ grouped ∧
    Described c.realParams collected ∧ ∀ p ∈ grouped, p.annotations = []

def GatewayParameter (s : Signal) : Prop := ∃ name vref start key, s = parameter name vref start key

def annotationNames (s : Signal) : List String :=
  match s.annotations.bind fun anns => anns.get "fmi_annotations" with
  | some (.map entries) => entries.map Prod.fst
  | _ => []

def unsetStart : ParameterType → String
  | .real => "0.0"
  | .string => ""

def describedParameter (type : ParameterType) (s : Signal) : XmlParameter where
  name := s.signal
  valueReference := vrefText s
  annotations := annotationNames s
  start := unsetStart type

/-- A document with the variables of the parameters in their order; the reals of the signal
groups stand behind them. -/
structure ListedIn (c : Gateway) (annotations : List (String × String)) (xml : FmuXml) : Prop where
  annotations : configAnnotations xml = annotations
  string : xmlParameters .string xml = c.stringParams.map (describedParameter .string)
  real : ∃ grouped, xmlParameters .real xml =
    c.realParams.map (describedParameter .real) ++ grouped ∧ ∀ p ∈ grouped, p.annotations = []

theorem described_map (type : ParameterType) (signals : List Signal) :
    Described signals (signals.map (describedParameter type)) := by
  refine ⟨?_, ?_⟩
  · intro p member
    obtain ⟨s, listed, same⟩ := List.mem_map.mp member
    exact ⟨s, listed, same ▸ ⟨rfl, rfl⟩⟩
  · intro s listed
    exact ⟨describedParameter type s, List.mem_map_of_mem listed, rfl, rfl⟩

theorem ListedIn.documentOf {c : Gateway} {annotations : List (String × String)} {xml : FmuXml}
    (listed : ListedIn c annotations xml) : DocumentOf c annotations xml := by
  obtain ⟨grouped, real, bare⟩ := listed.real
  refine ⟨listed.annotations, ?_, _, grouped, real, described_map .real c.realParams, bare⟩
  rw [listed.string]
  exact described_map .string c.stringParams

theorem annotations_getD (annotations : List (String × String)) :
    (if annotations = [] then none else some annotations).getD [] = annotations := by
  cases annotations with
  | nil => rfl
  | cons a annotations => rfl

theorem eachSignal_listed {α : Type} {round : Signal → Go (Round α)}
    {select : α → Option XmlParameter} {describe : Signal → XmlParameter} {signals : List Signal}
    (spec : ∀ s ∈ signals, ∃ v, round s = .ok (.add [v]) ∧ select v = some (describe s))
    {added : List α} {error : Option String}
    (ran : eachSignal round signals = .ok (added, error)) :
    added.filterMap select = signals.map describe := by
  induction signals generalizing added error with
  | nil =>
      cases ran
      rfl
  | cons s signals ih =>
      obtain ⟨v, first, selected⟩ := spec s List.mem_cons_self
      obtain ⟨r, ran_first, ran⟩ := bind_eq_ok.mp ran
      cases first.symm.trans ran_first
      obtain ⟨⟨rest, stop⟩, later, ran⟩ := bind_eq_ok.mp ran
      cases ran
      have parameters : ([v] ++ rest).filterMap select = describe s :: rest.filterMap select :=
        List.filterMap_cons_some selected
      rw [parameters, List.map_cons,
        ih (fun t member => spec t (List.mem_cons_of_mem s member)) later]

theorem eachSignal_forall {α : Type} {round : Signal → Go (Round α)} {good : α → Prop}
    {signals : List Signal}
    (spec : ∀ s ∈ signals, ∀ vars, round s = .ok (.add vars) → ∀ v ∈ vars, good v)
    {added : List α} {error : Option String}
    (ran : eachSignal round signals = .ok (added, error)) : ∀ v ∈ added, good v := by
  induction signals generalizing added error with
  | nil =>
      cases ran
      exact fun _ member => absurd member List.not_mem_nil
  | cons s signals ih =>
      obtain ⟨r, first, ran⟩ := bind_eq_ok.mp ran
      cases r with
      | stop e =>
          cases ran
          exact fun _ member => absurd member List.not_mem_nil
      | add vars =>
          obtain ⟨⟨rest, stop⟩, later, ran⟩ := bind_eq_ok.mp ran
          cases ran
          intro v member
          cases List.mem_append.mp member with
          | inl here => exact spec s List.mem_cons_self vars first v here
          | inr there =>
              exact ih (fun t listed => spec t (List.mem_cons_of_mem s listed)) later v there

/-- A loop over groups keeps what each of its rounds keeps. -/
theorem eachGroup_invariant {M : Type} {round : M → ObjectMetadata → List Signal → Go M}
    {inv : M → Prop} {groups : List SignalGroup}
    (keeps : ∀ sg ∈ groups, ∀ metadata md md', sg.metadata = some metadata →
      round md metadata sg.signals = .ok md' → inv md → inv md')
    {md md' : M} {channels channels' : List String} (holds : inv md)
    (ran : eachGroup round (md, channels) groups = .ok (md', channels')) : inv md' := by
  induction groups generalizing md channels with
  | nil =>
      cases ran
      exact holds
  | cons sg groups ih =>
      obtain ⟨metadata, stored, ran⟩ := bind_eq_ok.mp ran
      obtain ⟨_, _, ran⟩ := bind_eq_ok.mp ran
      obtain ⟨after, round, ran⟩ := bind_eq_ok.mp ran
      apply ih _ _ ran
      · intro sg later
        exact keeps sg (List.mem_cons_of_mem _ later)
      · exact keeps sg List.mem_cons_self metadata md after (eq_some_of_deref stored) round holds

/-- Whatever the variables of a bus have in common. -/
theorem buildBinarySignals_forall {α : Type} {build : Signal → Int → String → Nat → Go α}
    {good : α → Prop}
    (spec : ∀ s vref causality id v, build s vref causality id = .ok v → good v) {s : Signal}
    {vrefs : List (Int × Int)} {id : Nat} {vars : List α}
    (ran : buildBinarySignals build s id vrefs = .ok vars) : ∀ v ∈ vars, good v := by
  induction vrefs generalizing id vars with
  | nil =>
      cases ran
      exact fun _ member => absurd member List.not_mem_nil
  | cons pair vrefs ih =>
      obtain ⟨rx, hrx, ran⟩ := bind_eq_ok.mp ran
      obtain ⟨tx, htx, ran⟩ := bind_eq_ok.mp ran
      obtain ⟨rest, later, ran⟩ := bind_eq_ok.mp ran
      cases ran
      intro v member
      rcases List.mem_cons.mp member with rfl | member
      · exact spec _ _ _ _ _ hrx
      · rcases List.mem_cons.mp member with rfl | member
        · exact spec _ _ _ _ _ htx
        · exact ih later v member

theorem busRound_forall {α : Type} {build : Signal → Int → String → Nat → Go α}
    {good : α → Prop}
    (spec : ∀ s vref causality id v, build s vref causality id = .ok v → good v) {s : Signal}
    {vars : List α} (ran : busRound build s = .ok (.add vars)) : ∀ v ∈ vars, good v := by
  obtain ⟨rx, _, ran⟩ := bind_eq_ok.mp ran
  cases rx with
  | none => cases ran
  | some rx =>
      obtain ⟨tx, _, ran⟩ := bind_eq_ok.mp ran
      cases tx with
      | none => cases ran
      | some tx =>
          dsimp only at ran
          split at ran
          · cases ran
          · obtain ⟨added, built, ran⟩ := bind_eq_ok.mp ran
            cases ran
            exact buildBinarySignals_forall spec built

/-- A signal without annotations for the document. -/
def Unannotated (s : Signal) : Prop :=
  ∃ anns, s.annotations = some anns ∧ anns.get "fmi_annotations" = none

theorem patchScalars_unannotated {sgType : String} {signals patched : List Signal}
    {state after : PatchState} (ran : patchScalars sgType state signals = .ok (after, patched)) :
    ∀ s ∈ patched, Unannotated s := by
  induction signals generalizing state patched after with
  | nil =>
      cases ran
      exact fun _ member => absurd member List.not_mem_nil
  | cons s signals ih =>
      rw [patchScalars] at ran
      split at ran
      · exact ih ran
      · obtain ⟨anns, _, ran⟩ := bind_eq_ok.mp ran
        obtain ⟨causality, _, ran⟩ := bind_eq_ok.mp ran
        split at ran
        · exact ih ran
        · obtain ⟨⟨next, rest⟩, later, ran⟩ := bind_eq_ok.mp ran
          cases ran
          intro t member
          cases List.mem_cons.mp member with
          | inl here =>
              rw [here]
              exact ⟨_, rfl, rfl⟩
          | inr there => exact ih later t there

/-- The signals of the scalar groups have no annotations for the document. -/
def GroupUnannotated (sg : SignalGroup) : Prop :=
  ∀ metadata, sg.metadata = some metadata → metadata.isBinary = false →
    ∀ s ∈ sg.signals, Unannotated s

theorem patchGroup_unannotated {name : String} {state after : PatchState}
    {sg patched : SignalGroup} (ran : patchGroup name state sg = .ok (after, patched)) :
    GroupUnannotated patched := by
  obtain ⟨metadata, _, ran⟩ := bind_eq_ok.mp ran
  obtain ⟨⟨next, signals⟩, hsignals, ran⟩ := bind_eq_ok.mp ran
  cases ran
  rintro _ ⟨⟩ scalar
  have same : metadata.isBinary = false := scalar
  rw [same] at hsignals
  exact patchScalars_unannotated hsignals

theorem patchGroups_unannotated {name : String} {state after : PatchState}
    {groups : List (Except String SignalGroup)} {patched : List SignalGroup}
    (ran : patchGroups name state groups = .ok (after, patched)) :
    ∀ sg ∈ patched, GroupUnannotated sg := by
  induction groups generalizing state after patched with
  | nil =>
      cases ran
      exact fun _ member => absurd member List.not_mem_nil
  | cons sg groups ih =>
      obtain ⟨sg, _, ran⟩ := bind_eq_ok.mp ran
      obtain ⟨⟨next, first⟩, hfirst, ran⟩ := bind_eq_ok.mp ran
      obtain ⟨⟨last, rest⟩, hrest, ran⟩ := bind_eq_ok.mp ran
      cases ran
      intro g member
      cases List.mem_cons.mp member with
      | inl here => exact here ▸ patchGroup_unannotated (ofGo_eq_ok.mp hfirst)
      | inr there => exact ih hrest g there

end DseFmi.FmiGateway
