import DseFmi.Generate.AnnotatedSignals

/-!
# The references of an annotated simulation

Without a direct index the references number the annotated signals of all groups. With one they
are the offsets of the index, so two signals share a reference exactly when they have the same
name and channel.
-/

namespace DseFmi.Generate

open DseFmi.Library

structure Assigned where
  group : SignalGroupDoc
  signal : String
  vref : Nat

def AnnotatedDoc.assigned (d : AnnotatedDoc) : List Assigned :=
  d.signals.filterMap fun s => s.vref.map fun vref => ⟨d.doc, s.signal.signal, vref⟩

def AnnotationRun.assigned (run : AnnotationRun) : List Assigned :=
  run.docs.flatMap AnnotatedDoc.assigned

/-- Some selected group of the channel has a signal of the name. -/
def IsIndexed (sim : Simulation) (filter : List String) (docs : List SignalGroupDoc)
    (channel name : String) : Prop :=
  ∃ doc ∈ docs, (doc.selected filter = true ∧ doc.hasIndex = false) ∧
    lookupSimBusChannelName sim doc.labels = .ok (.ok channel) ∧
      name ∈ doc.signals.map Signal.signal

theorem foldl_addSignal_represents {channel : String} (signals : List Signal) {di : DirectIndex}
    {calls : List DirectIndexCall} (represents : Represents calls di) :
    Represents (calls ++ signals.map fun signal => .addSignal channel signal.signal)
      (signals.foldl (fun di signal => di.addSignal channel signal.signal) di) := by
  induction signals generalizing di calls with
  | nil => simpa using represents
  | cons signal signals ih =>
      have rest := ih (represents.addSignal channel signal.signal)
      simpa using rest

theorem isIndexed_cons {sim : Simulation} {filter : List String} {doc : SignalGroupDoc}
    {docs : List SignalGroupDoc} {channel name : String} :
    IsIndexed sim filter (doc :: docs) channel name ↔
      IsIndexed sim filter [doc] channel name ∨ IsIndexed sim filter docs channel name := by
  simp [IsIndexed]

/-- The signals that are added are those of the selected groups, each in its channel. -/
theorem indexGroups_represents {sim : Simulation} {filter : List String}
    {docs : List SignalGroupDoc} {di built : DirectIndex} {calls : List DirectIndexCall}
    (represents : Represents calls di) (ran : indexGroups sim filter di docs = .ok built) :
    ∃ more, Represents more built ∧ ∀ channel name, .addSignal channel name ∈ more ↔
      .addSignal channel name ∈ calls ∨ IsIndexed sim filter docs channel name := by
  induction docs generalizing di calls with
  | nil =>
      cases ran
      exact ⟨calls, represents, by simp [IsIndexed]⟩
  | cons doc docs ih =>
      have passed (left : ∀ channel name, ¬ IsIndexed sim filter [doc] channel name)
          (ran : indexGroups sim filter di docs = .ok built) :
          ∃ more, Represents more built ∧ ∀ channel name, .addSignal channel name ∈ more ↔
            .addSignal channel name ∈ calls ∨ IsIndexed sim filter (doc :: docs) channel name := by
        obtain ⟨more, built, added⟩ := ih represents ran
        refine ⟨more, built, ?_⟩
        intro channel name
        rw [added, isIndexed_cons, or_iff_right (left channel name)]
      unfold indexGroups at ran
      split at ran
      next selected =>
        obtain ⟨looked, found, ran⟩ := bind_eq_ok.mp ran
        cases looked with
        | error text =>
            apply passed _ ran
            rintro channel name ⟨other, member, _, here, _⟩
            rw [List.mem_singleton.mp member, found] at here
            cases here
        | ok here =>
            have group := (represents.getSignalGroup here).1
            obtain ⟨more, built, added⟩ := ih (foldl_addSignal_represents doc.signals group) ran
            refine ⟨more, built, ?_⟩
            intro channel name
            have own : IsIndexed sim filter [doc] channel name ↔
                here = channel ∧ name ∈ doc.signals.map Signal.signal := by
              have selects : doc.selected filter = true ∧ doc.hasIndex = false := by
                simpa using selected
              simp [IsIndexed, selects, found]
            rw [added, isIndexed_cons, own]
            simp only [List.mem_append, List.mem_map, List.mem_singleton, reduceCtorEq, or_false,
              DirectIndexCall.addSignal.injEq]
            constructor
            · rintro ((earlier | ⟨signal, member, rfl, rfl⟩) | later)
              · exact .inl earlier
              · exact .inr (.inl ⟨rfl, signal, member, rfl⟩)
              · exact .inr (.inr later)
            · rintro (earlier | ⟨rfl, signal, member, rfl⟩ | later)
              · exact .inl (.inl earlier)
              · exact .inl (.inr ⟨signal, member, rfl, rfl⟩)
              · exact .inr later
      next left =>
        apply passed _ ran
        rintro channel name ⟨other, member, selects, _⟩
        rw [List.mem_singleton.mp member] at selects
        exact left (by simpa using selects)

theorem MapLayout.offset_eq_iff {calls : List DirectIndexCall} {di : DirectIndex}
    (layout : MapLayout calls di) {channel other name signal : String} {offset offset' : Nat}
    (first : di.getSignalOffset channel name = (offset, true))
    (second : di.getSignalOffset other signal = (offset', true)) :
    offset = offset' ↔ name = signal ∧ channel = other := by
  constructor
  · rintro rfl
    have here := (layout.found _ _ _).mp first
    have there := (layout.found _ _ _).mp second
    by_contra different
    have distinct : (⟨channel, name, offset⟩ : Slot) ≠ ⟨other, signal, offset⟩ := by
      intro same
      obtain ⟨rfl, rfl, _⟩ := Slot.mk.inj same
      exact different ⟨rfl, rfl⟩
    have apart : di.slots.Pairwise fun a b => a.offset ≠ b.offset :=
      layout.disjoint.imp fun before same => by omega
    have : Std.Symm fun a b : Slot => a.offset ≠ b.offset := ⟨fun _ _ different => different.symm⟩
    exact apart.forall here there distinct rfl
  · rintro ⟨rfl, rfl⟩
    exact (Prod.mk.inj (first.symm.trans second)).1

theorem MapLayout.located_iff {calls : List DirectIndexCall} {di : DirectIndex}
    (layout : MapLayout calls di) {channel name : String} :
    (∃ offset, di.getSignalOffset channel name = (offset, true)) ↔
      .addSignal channel name ∈ calls := by
  have missing := layout.missing channel name
  rcases getSignalOffset_cases di channel name with ⟨offset, found⟩ | absent
  · refine iff_of_true ⟨offset, found⟩ ?_
    by_contra unknown
    rw [missing.mpr unknown] at found
    cases found
  · refine iff_of_false ?_ (missing.mp absent)
    rintro ⟨offset, found⟩
    rw [absent] at found
    cases found

theorem writeSignalGroup_indexFile (writes : SignalGroupDoc → Bool)
    (indexFile : List SignalGroupDoc) (groups : List DirectIndexSignalGroup) :
    (writeSignalGroup writes indexFile groups).1 =
      indexFile ++ (groups.map DirectIndexSignalGroup.doc).takeWhile writes := by
  induction groups generalizing indexFile with
  | nil => simp [writeSignalGroup]
  | cons group groups ih =>
      rw [writeSignalGroup, List.map_cons]
      by_cases written : writes group.doc
      · rw [if_pos written, ih, List.takeWhile_cons_of_pos written]
        simp
      · rw [if_neg written, List.takeWhile_cons_of_neg written, List.append_nil]

theorem valueOf_offset (s : DirectIndexSignal) :
    valueOf s.signal "offset" = some (.int s.offset) := by
  show Annotations.get (((∅ : Annotations).insert "index" (.int s.index)).insert "offset"
    (.int s.offset)) "offset" = some (.int s.offset)
  exact get_insert_self _ _ (by simp)

/-- A signal that is made a variable: its group is selected, the rules make it an input or an
output, and with an index its group has a channel, which some selected group gives a signal of its
name. -/
structure IsVariable (c : AnnotationCommand) (sim : Simulation) (docs : List SignalGroupDoc)
    (doc : SignalGroupDoc) (signal : Signal) : Prop where
  selected : c.Selects doc
  exchanged : c.Exchanges signal
  indexed : c.buildIndex = true → ∃ channel,
    lookupSimBusChannelName sim doc.labels = .ok (.ok channel) ∧
      IsIndexed sim (filterNames c.signalGroups) docs channel signal.signal

/-- The documents of an index that has the offsets of the references: one for each channel, with
each signal once. -/
structure HoldsOffsets (sim : Simulation) (assigned : List Assigned)
    (index : List SignalGroupDoc) : Prop where
  channels : (index.map SignalGroupDoc.name).Nodup
  signals : ∀ group ∈ index, (group.signals.map Signal.signal).Nodup
  offsets : ∀ a ∈ assigned, ∃ channel,
    lookupSimBusChannelName sim a.group.labels = .ok (.ok channel) ∧
      ∃ group ∈ index, group.name = channel ∧ ∃ s ∈ group.signals, s.signal = a.signal ∧
        valueOf s "offset" = some (.int a.vref)

structure References (c : AnnotationCommand) (sim : Simulation) (docs : List SignalGroupDoc)
    (indexFile : List SignalGroupDoc) (writes : SignalGroupDoc → Bool) (run : AnnotationRun) :
    Prop where
  documents : run.docs.map AnnotatedDoc.doc = docs ++ if c.buildIndex then run.indexFile else []
  /-- The signals that are made variables, and no others, get a reference. -/
  given : ∀ d ∈ run.docs, List.Forall₂ (fun signal s => s.signal.signal = signal.signal ∧
    (s.vref.isSome ↔ IsVariable c sim docs d.doc signal)) d.doc.signals d.signals
  stored : ∀ d ∈ run.docs, ∀ s ∈ d.signals, ∀ v, s.vref = some v →
    valueOf s.signal "fmi_variable_vref" = some (.int v)
  numbered : c.buildIndex = false →
    run.assigned.map Assigned.vref = List.range' 1 run.assigned.length
  shared : c.buildIndex = true → ∀ a ∈ run.assigned, ∀ b ∈ run.assigned, ∃ channel other,
    lookupSimBusChannelName sim a.group.labels = .ok (.ok channel) ∧
      lookupSimBusChannelName sim b.group.labels = .ok (.ok other) ∧
      (a.vref = b.vref ↔ a.signal = b.signal ∧ channel = other)
  kept : c.buildIndex = false → run.indexFile = indexFile
  /-- The index is appended to what the file held before, up to a document that cannot be
  written. -/
  appended : c.buildIndex = true → ∃ index, HoldsOffsets sim run.assigned index ∧
    run.indexFile = indexFile ++ index.takeWhile writes

theorem assigned_vref (docs : List AnnotatedDoc) :
    (docs.flatMap AnnotatedDoc.assigned).map Assigned.vref =
      docs.flatMap fun d => d.signals.filterMap AnnotatedSignal.vref := by
  rw [List.map_flatMap]
  congr 1
  funext d
  rw [AnnotatedDoc.assigned, List.map_filterMap]
  congr 1
  funext s
  cases s.vref <;> rfl

theorem mem_assigned {docs : List AnnotatedDoc} {a : Assigned} :
    a ∈ docs.flatMap AnnotatedDoc.assigned ↔ ∃ d ∈ docs, ∃ s ∈ d.signals,
      s.vref = some a.vref ∧ d.doc = a.group ∧ s.signal.signal = a.signal := by
  simp only [List.mem_flatMap, AnnotatedDoc.assigned, List.mem_filterMap, Option.map_eq_some_iff]
  constructor
  · rintro ⟨d, listed, s, member, v, assigned, rfl⟩
    exact ⟨d, listed, s, member, assigned, rfl, rfl⟩
  · rintro ⟨d, listed, s, member, assigned, group, name⟩
    refine ⟨d, listed, s, member, _, assigned, ?_⟩
    rw [group, name]

section Groups

variable {c : AnnotationCommand} {sim : Simulation} {directIndex : Option DirectIndex}
  {docs : List SignalGroupDoc} {annotated : List AnnotatedDoc} {vref next : Nat}

theorem AnnotatedGroups.given
    (groups : AnnotatedGroups c sim directIndex docs vref annotated next)
    {scanned : List SignalGroupDoc}
    (placed : ∀ labels name, (∃ v, Located sim directIndex labels name v) ↔
      (c.buildIndex = true → ∃ channel, lookupSimBusChannelName sim labels = .ok (.ok channel) ∧
        IsIndexed sim (filterNames c.signalGroups) scanned channel name)) :
    ∀ d ∈ annotated, List.Forall₂ (fun signal s => s.signal.signal = signal.signal ∧
      (s.vref.isSome ↔ IsVariable c sim scanned d.doc signal)) d.doc.signals d.signals := by
  intro d member
  obtain ⟨_, _, as⟩ := groups.each d member
  apply as.each.imp
  rintro signal s ⟨name, iff⟩
  refine ⟨name, iff.trans ?_⟩
  rw [AnnotationCommand.Gives, placed]
  exact ⟨fun given => ⟨given.1, given.2.1, given.2.2⟩,
    fun isVariable => ⟨isVariable.selected, isVariable.exchanged, isVariable.indexed⟩⟩

theorem AnnotatedGroups.stored
    (groups : AnnotatedGroups c sim directIndex docs vref annotated next) :
    ∀ d ∈ annotated, ∀ s ∈ d.signals, ∀ v, s.vref = some v →
      valueOf s.signal "fmi_variable_vref" = some (.int v) := by
  intro d member
  obtain ⟨_, _, as⟩ := groups.each d member
  exact as.stored

theorem AnnotatedGroups.located {di : DirectIndex}
    (groups : AnnotatedGroups c sim (some di) docs vref annotated next) :
    ∀ a ∈ annotated.flatMap AnnotatedDoc.assigned, ∃ channel,
      lookupSimBusChannelName sim a.group.labels = .ok (.ok channel) ∧
        di.getSignalOffset channel a.signal = (a.vref, true) := by
  intro a member
  obtain ⟨d, listed, s, inside, assigned, group, name⟩ := mem_assigned.mp member
  obtain ⟨_, _, as⟩ := groups.each d listed
  rw [← group, ← name]
  exact as.located s inside a.vref assigned di rfl

/-- The documents of an index have the offsets that are found in it. -/
theorem Represents.holdsOffsets {calls : List DirectIndexCall} {di : DirectIndex}
    (represents : Represents calls di) (layout : MapLayout calls di) {assigned : List Assigned}
    (located : ∀ a ∈ assigned, ∃ channel,
      lookupSimBusChannelName sim a.group.labels = .ok (.ok channel) ∧
        di.getSignalOffset channel a.signal = (a.vref, true)) :
    HoldsOffsets sim assigned (di.groups.map DirectIndexSignalGroup.doc) := by
  refine ⟨?_, ?_, ?_⟩
  · rw [List.map_map]
    exact represents.index.nodup
  · intro doc member
    obtain ⟨group, listed, rfl⟩ := List.mem_map.mp member
    have names := (represents.groups group listed).index.nodup
    rw [DirectIndexSignalGroup.names] at names
    rw [DirectIndexSignalGroup.doc, List.map_map]
    exact names
  · intro a member
    obtain ⟨channel, here, offset⟩ := located a member
    obtain ⟨group, listed, named, s, inside, signal, value⟩ :=
      mem_slots.mp ((layout.found _ _ _).mp offset)
    refine ⟨channel, here, group.doc, List.mem_map_of_mem listed, named, s.signal,
      List.mem_map_of_mem inside, signal, ?_⟩
    rw [valueOf_offset, value]

/-- Without an index the references are numbers. -/
theorem AnnotatedGroups.references_plain {last : Nat} {indexFile : List SignalGroupDoc}
    {writes : SignalGroupDoc → Bool} (plain : ¬ c.buildIndex = true)
    (groups : AnnotatedGroups c sim none docs 0 annotated last) :
    References c sim docs indexFile writes ⟨annotated, indexFile⟩ := by
  refine ⟨?_, ?_, groups.stored, ?_, fun indexed => absurd indexed plain, fun _ => rfl,
    fun indexed => absurd indexed plain⟩
  · rw [if_neg plain, List.append_nil]
    exact groups.docs
  · apply groups.given
    intro labels name
    refine iff_of_true ⟨0, ?_⟩ fun indexed => absurd indexed plain
    intro di absent
    cases absent
  · intro _
    obtain ⟨numbered, _⟩ := groups.numbered rfl
    rw [← assigned_vref] at numbered
    rw [AnnotationRun.assigned]
    simpa using numbered

/-- With an index the references are its offsets. -/
theorem AnnotatedGroups.references_indexed {built : DirectIndex} {last : Nat}
    {indexFile : List SignalGroupDoc} {writes : SignalGroupDoc → Bool}
    (indexed : c.buildIndex = true)
    (index : indexGroups sim (filterNames c.signalGroups) newDirectIndex docs = .ok built)
    (groups : AnnotatedGroups c sim (some built.calculateMapOffsets)
      (docs ++ (writeSignalGroup writes indexFile built.calculateMapOffsets.groups).1) 0
      annotated last) :
    References c sim docs indexFile writes
      ⟨annotated, (writeSignalGroup writes indexFile built.calculateMapOffsets.groups).1⟩ := by
  obtain ⟨calls, represents, added⟩ := indexGroups_represents (runCalls_represents []) index
  have layout := represents.mapLayout
  have inIndex (channel name : String) :
      (∃ v, built.calculateMapOffsets.getSignalOffset channel name = (v, true)) ↔
        IsIndexed sim (filterNames c.signalGroups) docs channel name := by
    rw [layout.located_iff]
    simp [added]
  have unplain : ¬ c.buildIndex = false := by simp [indexed]
  refine ⟨?_, ?_, groups.stored, fun plain => absurd plain unplain, ?_,
    fun plain => absurd plain unplain, ?_⟩
  · rw [if_pos indexed]
    exact groups.docs
  · apply groups.given
    intro labels name
    constructor
    · rintro ⟨v, located⟩ _
      obtain ⟨channel, here, offset⟩ := located _ rfl
      exact ⟨channel, here, (inIndex channel name).mp ⟨v, offset⟩⟩
    · intro isIndexed
      obtain ⟨channel, here, inside⟩ := isIndexed indexed
      obtain ⟨v, offset⟩ := (inIndex channel name).mpr inside
      refine ⟨v, ?_⟩
      rintro _ ⟨⟩
      exact ⟨channel, here, offset⟩
  · intro _ a first b second
    obtain ⟨channel, here, offset⟩ := groups.located a first
    obtain ⟨other, there, offset'⟩ := groups.located b second
    exact ⟨channel, other, here, there, layout.offset_eq_iff offset offset'⟩
  · intro _
    exact ⟨_, represents.calculateMapOffsets.holdsOffsets layout groups.located,
      writeSignalGroup_indexFile writes indexFile built.calculateMapOffsets.groups⟩

end Groups

/-- The references of a run that succeeds: numbers without an index, and the offsets of the
signals in their channels with one. -/
theorem annotation_references {c : AnnotationCommand} {sim : Simulation}
    {docs indexFile : List SignalGroupDoc} {writes : SignalGroupDoc → Bool} {run : AnnotationRun}
    (ran : c.run sim docs indexFile writes = .ok run) :
    References c sim docs indexFile writes run := by
  unfold AnnotationCommand.run at ran
  split at ran
  next => cases ran
  next =>
    split at ran
    next indexed =>
      obtain ⟨built, index, ran⟩ := bind_eq_ok.mp ran
      rw [liftGo_eq_ok] at index
      obtain ⟨⟨annotated, last⟩, annotates, ran⟩ := bind_eq_ok.mp ran
      cases ran
      exact (runAnnotateSignalGroups_annotated annotates).references_indexed indexed index
    next plain =>
      obtain ⟨⟨annotated, last⟩, annotates, ran⟩ := bind_eq_ok.mp ran
      cases ran
      exact (runAnnotateSignalGroups_annotated annotates).references_plain plain

def directed (name direction : String) : Signal :=
  ⟨name, some ((∅ : Annotations).insert "direction" (.string direction))⟩

/-- A signal that two groups of one channel share, and one that is local. -/
def sharedSignal : List SignalGroupDoc :=
  let labels : AList fun _ : String => String := (∅ : AList fun _ : String => String).insert
    "channel" "physical"
  [⟨"source", ∅, labels, [directed "speed" "output", directed "torque" "output"]⟩,
    ⟨"sink", ∅, labels, [directed "gear" "local", directed "torque" "input"]⟩]

def oneChannel : Simulation where
  stackDocs := [some [⟨"plant", "Plant", some [⟨some "physical", some "physical_channel",
    some ((∅ : AList fun _ : String => String).insert "channel" "physical")⟩]⟩]]
  models := []

def earlierIndex : List SignalGroupDoc :=
  (newDirectIndex.addSignal "physical_channel" "torque").calculateMapOffsets.groups.map
    DirectIndexSignalGroup.doc

def indexByDirection : AnnotationCommand where
  signalGroups := ""
  ruleFile := ""
  ruleset := "signal-direction"
  buildIndex := true
  loadCsv _ := .error "no such file"

theorem annotation_references_sharedSignal :
    ∃ run, indexByDirection.run oneChannel (sharedSignal ++ earlierIndex) earlierIndex
        (fun _ => true) = .ok run ∧
      run.assigned.map Assigned.vref = [0, 8, 8] ∧ run.indexFile.length = 2 ∧
      References indexByDirection oneChannel (sharedSignal ++ earlierIndex) earlierIndex
        (fun _ => true) run := by
  have runs : (indexByDirection.run oneChannel (sharedSignal ++ earlierIndex) earlierIndex
      fun _ => true).map (fun run => (run.assigned.map Assigned.vref, run.indexFile.length)) =
        .ok ([0, 8, 8], 2) := by
    decide
  cases ran : indexByDirection.run oneChannel (sharedSignal ++ earlierIndex) earlierIndex
      fun _ => true with
  | error failure =>
      rw [ran] at runs
      cases runs
  | ok run =>
      rw [ran] at runs
      obtain ⟨vrefs, length⟩ := Prod.mk.inj (Except.ok.inj runs)
      exact ⟨run, rfl, vrefs, length, annotation_references ran⟩

end DseFmi.Generate
