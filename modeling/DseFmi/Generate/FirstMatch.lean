import DseFmi.Generate.ChannelRanges
import DseFmi.Generate.Collection

/-!
# The first channel that matches

A group belongs to the first channel of the stack whose selectors are among its labels. The
search reads the definitions of a model for each channel without selectors that it comes to,
and ends with a panic where one of them has no channels or a channel has no alias.
-/

namespace DseFmi.Generate

open DseFmi.Library

/-- The channels in the order of the search, each with the name of its model. -/
def simulationChannels (instances : List StackModel) : List (String × Channel) :=
  (instances.filter fun m => m.name ≠ "simbus").flatMap fun m =>
    (m.channels.getD []).map fun channel => (m.model, channel)

def definedChannels (models : List ModelDoc) (model aliasName : String) : List Channel :=
  ((models.filter fun d => d.name = model).flatMap fun d => d.channels.getD []).filter
    fun channel => channel.aliasName = some aliasName

/-- The selectors of a channel, else those of the channel of the model definition with the same
alias; the last one counts if there are several. -/
def effectiveSelectors (models : List ModelDoc) (model : String) (channel : Channel) :
    Option (AList fun _ : String => String) :=
  match channel.selectors, channel.aliasName with
  | some selectors, _ => some selectors
  | none, some aliasName =>
      (definedChannels models model aliasName).getLast?.bind Channel.selectors
  | none, none => none

def matchesLabels (models : List ModelDoc) (labels : AList fun _ : String => String)
    (visit : String × Channel) : Bool :=
  match effectiveSelectors models visit.1 visit.2 with
  | none => false
  | some selectors => selectors.entries.all fun e => labels.lookup e.1 = some e.2

def firstMatch (sim : Simulation) (labels : AList fun _ : String => String) : Option Channel :=
  match sim.stackDocs with
  | [some instances] =>
      ((simulationChannels instances).find? (matchesLabels sim.models labels)).map Prod.snd
  | _ => none

/-- The name of the first match in all orders of the maps, or an error if there is none. -/
def FindsFirstMatch (sim : Simulation) (labels : AList fun _ : String => String) : Prop :=
  ∀ ranges, match firstMatch sim labels with
    | some channel => ∃ name, channel.name = some name ∧
        lookupSimBusChannelNameBy ranges sim labels = .ok (.ok name)
    | none => ∃ message, lookupSimBusChannelNameBy ranges sim labels = .ok (.error message)

structure Channel.IsNamed (channel : Channel) : Prop where
  name : channel.name.isSome = true
  aliased : channel.aliasName.isSome = true

/-- The models of a stack have named and aliased channels. -/
def InstancesNamed (instances : List StackModel) : Prop :=
  ∀ m ∈ instances, m.name ≠ "simbus" →
    ∃ channels, m.channels = some channels ∧ ∀ channel ∈ channels, channel.IsNamed

def Simulation.IsNamed (sim : Simulation) : Prop :=
  ∀ instances, sim.stackDocs = [some instances] → InstancesNamed instances

/-- All definitions of the model have channels, each with an alias. -/
def DefinitionsRead (models : List ModelDoc) (model : String) : Prop :=
  ∀ d ∈ models, d.name = model →
    ∃ channels, d.channels = some channels ∧ ∀ channel ∈ channels, channel.aliasName.isSome = true

/-- The definitions are read for the channels without selectors, up to the first match. -/
def VisitsRead (models : List ModelDoc) (labels : AList fun _ : String => String)
    (visits : List (String × Channel)) : Prop :=
  ∀ before model channel after, visits = before ++ (model, channel) :: after →
    (∀ visit ∈ before, matchesLabels models labels visit = false) →
    channel.selectors = none → DefinitionsRead models model

def FallbacksRead (sim : Simulation) (labels : AList fun _ : String => String) : Prop :=
  ∀ instances, sim.stackDocs = [some instances] →
    VisitsRead sim.models labels (simulationChannels instances)

section Visits

variable {models : List ModelDoc} {labels : AList fun _ : String => String}
  {visits more : List (String × Channel)}

theorem visitsRead_nil : VisitsRead models labels [] := by
  intro before model channel after same
  cases before <;> cases same

theorem visitsRead_cons_iff {visit : String × Channel} :
    VisitsRead models labels (visit :: visits) ↔
      (visit.2.selectors = none → DefinitionsRead models visit.1) ∧
        (matchesLabels models labels visit = false → VisitsRead models labels visits) := by
  constructor
  · intro read
    refine ⟨?_, ?_⟩
    · exact read [] visit.1 visit.2 visits rfl (by simp)
    · intro passed before model channel after same front
      apply read (visit :: before) model channel after (by rw [same]; rfl)
      exact List.forall_mem_cons.mpr ⟨passed, front⟩
  · rintro ⟨first, rest⟩ before model channel after same front
    cases before with
    | nil =>
        obtain ⟨rfl, rfl⟩ := List.cons.inj same
        exact first
    | cons other before =>
        obtain ⟨rfl, rfl⟩ := List.cons.inj same
        rw [List.forall_mem_cons] at front
        exact rest front.1 before model channel after rfl front.2

theorem visitsRead_append_iff :
    VisitsRead models labels (visits ++ more) ↔
      VisitsRead models labels visits ∧
        ((∀ visit ∈ visits, matchesLabels models labels visit = false) →
          VisitsRead models labels more) := by
  induction visits with
  | nil => simp [visitsRead_nil]
  | cons visit visits ih =>
      rw [List.cons_append, visitsRead_cons_iff, visitsRead_cons_iff, ih]
      simp only [List.forall_mem_cons]
      constructor
      · rintro ⟨first, rest⟩
        exact ⟨⟨first, fun passed => (rest passed).1⟩, fun all => (rest all.1).2 all.2⟩
      · rintro ⟨⟨first, rest⟩, later⟩
        exact ⟨first, fun passed => ⟨rest passed, fun all => later ⟨passed, all⟩⟩⟩

end Visits

section Selector

variable {models : List ModelDoc} {model : String} {channel : Channel} {aliasName : String}

/-- The round of `selectorChannel` for a channel of a definition. -/
def aliasRound (channel selected modelChn : Channel) : Go Channel := do
  let modelAlias ← deref modelChn.aliasName
  let channelAlias ← deref channel.aliasName
  .ok (if modelAlias ≠ channelAlias then selected else modelChn)

def definitionRound (model : String) (channel selected : Channel) (modelDfn : ModelDoc) :
    Go Channel :=
  if modelDfn.name ≠ model then .ok selected
  else do
    let channels ← deref modelDfn.channels
    channels.foldlM (aliasRound channel) selected

theorem foldlM_aliasRound (aliased : channel.aliasName = some aliasName)
    (channels : List Channel) (selected : Channel)
    (read : ∀ c ∈ channels, c.aliasName.isSome = true) :
    channels.foldlM (aliasRound channel) selected =
      .ok ((channels.filter fun c => c.aliasName = some aliasName).getLast?.getD selected) := by
  induction channels generalizing selected with
  | nil => rfl
  | cons c channels ih =>
      rw [List.forall_mem_cons] at read
      obtain ⟨other, found⟩ := Option.isSome_iff_exists.mp read.1
      rw [List.foldlM_cons, aliasRound, found, aliased]
      simp only [deref, ok_bind]
      rw [ih _ read.2]
      by_cases same : other = aliasName
      · simp [same, found, List.getLast?_cons]
      · simp [same, found]

theorem aliased_of_aliasRounds {channels : List Channel} {selected result : Channel}
    (ran : channels.foldlM (aliasRound channel) selected = .ok result) :
    ∀ c ∈ channels, c.aliasName.isSome = true := by
  induction channels generalizing selected with
  | nil => simp
  | cons c channels ih =>
      rw [List.foldlM_cons] at ran
      obtain ⟨next, first, ran⟩ := bind_eq_ok.mp ran
      obtain ⟨other, found, _⟩ := bind_eq_ok.mp first
      rw [List.forall_mem_cons]
      refine ⟨?_, ih ran⟩
      rw [eq_some_of_deref found]
      rfl

theorem definedChannels_cons (d : ModelDoc) :
    definedChannels (d :: models) model aliasName =
      (if d.name = model then
        (d.channels.getD []).filter fun c => c.aliasName = some aliasName else []) ++
        definedChannels models model aliasName := by
  unfold definedChannels
  by_cases same : d.name = model
  · rw [List.filter_cons_of_pos (by simpa using same), if_pos same, List.flatMap_cons,
      List.filter_append]
  · rw [List.filter_cons_of_neg (by simpa using same), if_neg same, List.nil_append]

/-- The loop over the definitions selects the last channel with the alias. -/
theorem foldlM_definitionRound (aliased : channel.aliasName = some aliasName)
    (read : DefinitionsRead models model) (selected : Channel) :
    models.foldlM (definitionRound model channel) selected =
      .ok ((definedChannels models model aliasName).getLast?.getD selected) := by
  induction models generalizing selected with
  | nil => rfl
  | cons d models ih =>
      have rest : DefinitionsRead models model := fun other member =>
        read other (List.mem_cons_of_mem _ member)
      rw [List.foldlM_cons, definedChannels_cons, definitionRound]
      by_cases same : d.name = model
      · obtain ⟨channels, stored, named⟩ := read d List.mem_cons_self same
        rw [if_neg (not_not.mpr same), if_pos same, stored, List.getLast?_append, deref, ok_bind,
          foldlM_aliasRound aliased channels selected named, ok_bind, ih rest]
        cases (definedChannels models model aliasName).getLast? <;> rfl
      · rw [if_pos same, if_neg same, ok_bind, ih rest]
        rfl

theorem definitionsRead_of_rounds {selected result : Channel}
    (ran : models.foldlM (definitionRound model channel) selected = .ok result) :
    DefinitionsRead models model := by
  induction models generalizing selected with
  | nil =>
      intro d member
      cases member
  | cons d models ih =>
      rw [List.foldlM_cons] at ran
      obtain ⟨next, first, ran⟩ := bind_eq_ok.mp ran
      intro other member same
      rcases List.mem_cons.mp member with rfl | later
      · rw [definitionRound, if_neg (not_not.mpr same)] at first
        obtain ⟨channels, stored, loop⟩ := bind_eq_ok.mp first
        exact ⟨channels, eq_some_of_deref stored, aliased_of_aliasRounds loop⟩
      · exact ih ran other later same

theorem selectorChannel_eq (named : channel.IsNamed)
    (read : channel.selectors = none → DefinitionsRead models model) :
    ∃ selected, selectorChannel models model channel = .ok selected ∧
      selected.selectors = effectiveSelectors models model channel ∧
      selected.aliasName.isSome = true := by
  obtain ⟨aliasName, aliased⟩ := Option.isSome_iff_exists.mp named.aliased
  unfold selectorChannel effectiveSelectors
  cases own : channel.selectors with
  | some selectors => exact ⟨channel, rfl, own, named.aliased⟩
  | none =>
      refine ⟨(definedChannels models model aliasName).getLast?.getD channel, ?_, ?_, ?_⟩
      · have read_alias : deref channel.aliasName = .ok aliasName := by
          rw [aliased]
          rfl
        change (deref channel.aliasName >>= fun _ =>
          models.foldlM (definitionRound model channel) channel) = _
        rw [read_alias, ok_bind]
        exact foldlM_definitionRound aliased (read own) channel
      · simp only [aliased]
        cases (definedChannels models model aliasName).getLast? with
        | none => exact own
        | some c => rfl
      · cases last : (definedChannels models model aliasName).getLast? with
        | none => exact named.aliased
        | some c =>
            have member := List.mem_of_getLast? last
            have same := of_decide_eq_true (List.mem_filter.mp member).2
            rw [Option.getD_some, same]
            rfl

theorem definitionsRead_of_selectorChannel {selected : Channel}
    (ran : selectorChannel models model channel = .ok selected)
    (without : channel.selectors = none) : DefinitionsRead models model := by
  unfold selectorChannel at ran
  rw [without] at ran
  obtain ⟨_, _, ran⟩ := bind_eq_ok.mp ran
  exact definitionsRead_of_rounds ran

end Selector

section Search

variable {models : List ModelDoc} {labels : AList fun _ : String => String} {model : String}
  {channel : Channel}

/-- A channel matches when all its effective selectors are counted. -/
theorem matchesLabels_of_some {selectors : AList fun _ : String => String}
    (effective : effectiveSelectors models model channel = some selectors) :
    matchesLabels models labels (model, channel) =
      decide (countSelectors labels selectors.entries 0 = some selectors.entries.length) := by
  have counted := @countSelectors_eq_iff labels selectors.entries 0
  rw [Nat.zero_add] at counted
  rw [matchesLabels, effective, Bool.eq_iff_iff, decide_eq_true_iff, counted, List.all_eq_true]
  simp only [HasSelector, decide_eq_true_eq]

theorem matchesLabels_of_none (effective : effectiveSelectors models model channel = none) :
    matchesLabels models labels (model, channel) = false := by
  rw [matchesLabels, effective]

def firstName (models : List ModelDoc) (labels : AList fun _ : String => String)
    (visits : List (String × Channel)) : Option String :=
  (visits.find? (matchesLabels models labels)).bind fun visit => visit.2.name

theorem findChannel_eq {channels : List Channel} (named : ∀ c ∈ channels, c.IsNamed)
    (read : VisitsRead models labels (channels.map fun c => (model, c))) :
    findChannel models labels model channels =
      .ok (firstName models labels (channels.map fun c => (model, c))) := by
  unfold firstName
  induction channels with
  | nil => rfl
  | cons channel channels ih =>
      rw [List.forall_mem_cons] at named
      rw [List.map_cons, visitsRead_cons_iff] at read
      obtain ⟨name, given⟩ := Option.isSome_iff_exists.mp named.1.name
      obtain ⟨selected, found, effective, aliased⟩ := selectorChannel_eq named.1 read.1
      obtain ⟨other, again⟩ := Option.isSome_iff_exists.mp aliased
      rw [findChannel, found, ok_bind, List.map_cons]
      cases own : selected.selectors with
      | none =>
          have passed := @matchesLabels_of_none _ labels _ _ (effective.symm.trans own)
          rw [List.find?_cons_of_neg (by simp [passed])]
          exact ih named.2 (read.2 passed)
      | some selectors =>
          have test := @matchesLabels_of_some _ labels _ _ _ (effective.symm.trans own)
          dsimp only
          split
          next counted =>
            rw [List.find?_cons_of_pos (by simp [test, counted])]
            simp [given, again, deref]
          next missed =>
            have passed : matchesLabels models labels (model, channel) = false := by
              simp [test, missed]
            rw [List.find?_cons_of_neg (by simp [passed])]
            exact ih named.2 (read.2 passed)

theorem visitsRead_of_findChannel {channels : List Channel}
    (named : ∀ c ∈ channels, c.IsNamed) {result : Option String}
    (ran : findChannel models labels model channels = .ok result) :
    VisitsRead models labels (channels.map fun c => (model, c)) := by
  induction channels with
  | nil => exact visitsRead_nil
  | cons channel channels ih =>
      rw [List.forall_mem_cons] at named
      obtain ⟨chosen, found, ran⟩ := bind_eq_ok.mp ran
      rw [List.map_cons, visitsRead_cons_iff]
      have first := definitionsRead_of_selectorChannel found
      refine ⟨first, fun passed => ih named.2 ?_⟩
      obtain ⟨selected, again, effective, _⟩ := selectorChannel_eq named.1 first
      cases again.symm.trans found
      cases own : chosen.selectors with
      | none => simpa only [own] using ran
      | some selectors =>
          have test := @matchesLabels_of_some _ labels _ _ _ (effective.symm.trans own)
          rw [passed] at test
          simp only [own] at ran
          rwa [if_neg (by simpa using test.symm)] at ran

variable {instances : List StackModel}

theorem simulationChannels_cons (m : StackModel) :
    simulationChannels (m :: instances) =
      (if m.name = "simbus" then []
        else (m.channels.getD []).map fun channel => (m.model, channel)) ++
        simulationChannels instances := by
  unfold simulationChannels
  by_cases simbus : m.name = "simbus"
  · rw [List.filter_cons_of_neg (by simpa using simbus), if_pos simbus, List.nil_append]
  · rw [List.filter_cons_of_pos (by simpa using simbus), if_neg simbus, List.flatMap_cons]

theorem firstName_append {visits more : List (String × Channel)}
    (named : ∀ visit ∈ visits, visit.2.IsNamed) :
    firstName models labels (visits ++ more) =
      (firstName models labels visits).or (firstName models labels more) := by
  unfold firstName
  rw [List.find?_append]
  cases found : visits.find? (matchesLabels models labels) with
  | none => simp
  | some visit =>
      obtain ⟨name, given⟩ :=
        Option.isSome_iff_exists.mp (named visit (List.mem_of_find?_eq_some found)).name
      simp [given]

theorem firstName_eq_none_iff {visits : List (String × Channel)}
    (named : ∀ visit ∈ visits, visit.2.IsNamed) :
    firstName models labels visits = none ↔
      ∀ visit ∈ visits, matchesLabels models labels visit = false := by
  unfold firstName
  cases found : visits.find? (matchesLabels models labels) with
  | none => simpa using found
  | some visit =>
      have member := List.mem_of_find?_eq_some found
      obtain ⟨name, given⟩ := Option.isSome_iff_exists.mp (named visit member).name
      simp only [Option.bind_some, given, reduceCtorEq, false_iff]
      intro none
      have passes := List.find?_some found
      rw [none visit member] at passes
      cases passes

theorem findInstance_eq (named : InstancesNamed instances)
    (read : VisitsRead models labels (simulationChannels instances)) :
    findInstance models labels instances =
      .ok (firstName models labels (simulationChannels instances)) := by
  induction instances with
  | nil => rfl
  | cons m instances ih =>
      have rest : InstancesNamed instances := fun other member =>
        named other (List.mem_cons_of_mem _ member)
      rw [simulationChannels_cons] at read ⊢
      rw [findInstance]
      by_cases simbus : m.name = "simbus"
      · rw [if_pos simbus, List.nil_append] at read
        rw [if_pos simbus, if_pos simbus, List.nil_append]
        exact ih rest read
      · obtain ⟨channels, stored, aliased⟩ := named m List.mem_cons_self simbus
        have listed : ∀ visit ∈ channels.map (fun c => (m.model, c)), visit.2.IsNamed := by
          simpa using aliased
        rw [if_neg simbus, stored, Option.getD_some, visitsRead_append_iff] at read
        rw [if_neg simbus, if_neg simbus, stored, Option.getD_some, firstName_append listed]
        simp only [deref, ok_bind, findChannel_eq aliased read.1]
        cases first : firstName models labels (channels.map fun c => (m.model, c)) with
        | some name => rfl
        | none =>
            rw [Option.none_or]
            exact ih rest (read.2 ((firstName_eq_none_iff listed).mp first))

theorem visitsRead_of_findInstance (named : InstancesNamed instances) {result : Option String}
    (ran : findInstance models labels instances = .ok result) :
    VisitsRead models labels (simulationChannels instances) := by
  induction instances with
  | nil => exact visitsRead_nil
  | cons m instances ih =>
      have rest : InstancesNamed instances := fun other member =>
        named other (List.mem_cons_of_mem _ member)
      rw [findInstance] at ran
      rw [simulationChannels_cons]
      by_cases simbus : m.name = "simbus"
      · rw [if_pos simbus] at ran ⊢
        exact ih rest ran
      · obtain ⟨channels, stored, aliased⟩ := named m List.mem_cons_self simbus
        have listed : ∀ visit ∈ channels.map (fun c => (m.model, c)), visit.2.IsNamed := by
          simpa using aliased
        rw [if_neg simbus] at ran ⊢
        rw [stored, Option.getD_some, visitsRead_append_iff]
        rw [stored] at ran
        simp only [deref, ok_bind] at ran
        obtain ⟨first, search, ran⟩ := bind_eq_ok.mp ran
        have read := visitsRead_of_findChannel aliased search
        refine ⟨read, fun passed => ?_⟩
        have none := (firstName_eq_none_iff listed).mpr passed
        rw [findChannel_eq aliased read, none] at search
        cases search
        exact ih rest ran

end Search

theorem lookupSimBusChannelName_error {sim : Simulation} {labels : AList fun _ : String => String}
    (none : ∀ instances, sim.stackDocs ≠ [some instances]) :
    firstMatch sim labels = .none ∧
      ∃ message, lookupSimBusChannelName sim labels = .ok (.error message) := by
  unfold firstMatch lookupSimBusChannelName
  split
  next instances docs => exact absurd docs (none instances)
  next =>
    refine ⟨rfl, ?_⟩
    split
    · exact ⟨_, rfl⟩
    next instances docs => exact absurd docs (none instances)
    · exact ⟨_, rfl⟩

theorem lookupSimBusChannelName_eq {sim : Simulation} {labels : AList fun _ : String => String}
    {instances : List StackModel} (docs : sim.stackDocs = [some instances]) :
    lookupSimBusChannelName sim labels =
      findInstance sim.models labels instances >>= fun found =>
        .ok (match found with
          | some name => .ok name
          | none => .error "stack contains no Model:Channel with matching selectors") := by
  rw [lookupSimBusChannelName, docs]
  dsimp only
  cases findInstance sim.models labels instances with
  | error p => rfl
  | ok found => cases found <;> rfl

theorem isNamed_of_mem_simulationChannels {instances : List StackModel}
    (named : InstancesNamed instances) :
    ∀ visit ∈ simulationChannels instances, visit.2.IsNamed := by
  intro visit member
  obtain ⟨m, kept, found⟩ := List.mem_flatMap.mp member
  obtain ⟨there, other⟩ := List.mem_filter.mp kept
  obtain ⟨channels, stored, aliased⟩ := named m there (of_decide_eq_true other)
  rw [stored, Option.getD_some] at found
  obtain ⟨channel, listed, rfl⟩ := List.mem_map.mp found
  exact aliased channel listed

/-- In a stack with named and aliased channels, the name of the first channel that matches is
found in all orders of the maps exactly when no definition without channels, or with a channel
without an alias, is read before. -/
theorem lookupSimBusChannelName_first_iff (sim : Simulation)
    (labels : AList fun _ : String => String) (named : sim.IsNamed) :
    FindsFirstMatch sim labels ↔ FallbacksRead sim labels := by
  have ranges : Ranges := ⟨id, fun _ => id, fun _ => .refl _, fun _ _ => .refl _⟩
  unfold FindsFirstMatch
  simp only [lookupSimBusChannelNameBy_eq]
  by_cases stack : ∃ instances, sim.stackDocs = [some instances]
  · obtain ⟨instances, docs⟩ := stack
    have inOrder := named instances docs
    have first : firstMatch sim labels = ((simulationChannels instances).find?
        (matchesLabels sim.models labels)).map Prod.snd := by
      rw [firstMatch, docs]
    rw [first, lookupSimBusChannelName_eq docs]
    constructor
    · intro finds other again
      cases docs.symm.trans again
      have ended : ∃ result, (findInstance sim.models labels instances >>= fun found =>
          .ok (match found with
            | some name => .ok name
            | none => .error "stack contains no Model:Channel with matching selectors")) =
          (.ok result : Go (Except String String)) := by
        have found := finds fun _ _ => ranges
        split at found
        · obtain ⟨name, _, ran⟩ := found
          exact ⟨_, ran⟩
        · obtain ⟨message, ran⟩ := found
          exact ⟨_, ran⟩
      obtain ⟨result, ran⟩ := ended
      obtain ⟨found, search, _⟩ := bind_eq_ok.mp ran
      exact visitsRead_of_findInstance inOrder search
    · intro read _
      rw [findInstance_eq inOrder (read instances docs), ok_bind, firstName]
      cases search : (simulationChannels instances).find? (matchesLabels sim.models labels) with
      | none => exact ⟨_, rfl⟩
      | some visit =>
          have member := List.mem_of_find?_eq_some search
          have channel := isNamed_of_mem_simulationChannels inOrder visit member
          obtain ⟨name, given⟩ := Option.isSome_iff_exists.mp channel.name
          refine ⟨name, given, ?_⟩
          rw [Option.bind_some, given]
  · have none : ∀ instances, sim.stackDocs ≠ [some instances] := fun instances docs =>
      stack ⟨instances, docs⟩
    obtain ⟨unmatched, failed⟩ := @lookupSimBusChannelName_error _ labels none
    rw [unmatched]
    exact ⟨fun _ instances docs => absurd docs (none instances), fun _ _ => failed⟩

/-- A stack with one channel, which has a name and an alias but no selectors. -/
def plainInstances : List StackModel :=
  [⟨"target_inst", "Target", some [⟨some "scalar", some "scalar_vector", none⟩]⟩]

theorem instancesNamed_plainInstances : InstancesNamed plainInstances := by
  intro m member _
  obtain rfl := List.mem_singleton.mp member
  refine ⟨_, rfl, ?_⟩
  intro channel listed
  obtain rfl := List.mem_singleton.mp listed
  exact ⟨rfl, rfl⟩

/-- The simulation with that stack and one definition of its model. -/
def plainSimulation (channels : Option (List Channel)) : Simulation :=
  ⟨[some plainInstances], [⟨"Target", channels⟩]⟩

theorem isNamed_plainSimulation (channels : Option (List Channel)) :
    (plainSimulation channels).IsNamed := by
  intro instances docs
  obtain rfl := Option.some.inj (List.singleton_inj.mp docs)
  exact instancesNamed_plainInstances

def inChannel (name : String) : AList fun _ : String => String :=
  (∅ : AList fun _ : String => String).insert "channel" name

/-- The selectors are those of the channel of the definition with the same alias. -/
theorem lookupSimBusChannelName_first_fallback :
    FindsFirstMatch
        (plainSimulation (some [⟨none, some "scalar_vector", some (inChannel "scalar")⟩]))
        (inChannel "scalar") ∧
      firstMatch (plainSimulation (some [⟨none, some "scalar_vector", some (inChannel "scalar")⟩]))
          (inChannel "scalar") = some ⟨some "scalar", some "scalar_vector", none⟩ := by
  refine ⟨(lookupSimBusChannelName_first_iff _ _ (isNamed_plainSimulation _)).mpr ?_, rfl⟩
  intro instances docs before model channel after _ _ _ d member _
  obtain rfl := List.mem_singleton.mp member
  refine ⟨_, rfl, fun c listed => ?_⟩
  obtain rfl := List.mem_singleton.mp listed
  rfl

/-- A definition without channels ends the search with a panic. -/
theorem lookupSimBusChannelName_noChannels :
    ¬ ∀ sim : Simulation, sim.IsNamed → FindsFirstMatch sim ∅ := by
  intro all
  have finds := all (plainSimulation none) (isNamed_plainSimulation none)
    fun _ _ => ⟨id, fun _ => id, fun _ => .refl _, fun _ _ => .refl _⟩
  obtain ⟨message, ran⟩ := finds
  cases ran

end DseFmi.Generate
