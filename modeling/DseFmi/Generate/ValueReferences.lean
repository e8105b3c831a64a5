import DseFmi.Generate.Collection
import DseFmi.Library.IdSupply

/-!
# The value references of a gateway FMU

Parameters and exported signals draw their value references from one counter. A scalar
takes one reference and advances the counter by one; a binary signal takes two and does
not advance the counter.
-/

namespace DseFmi.Generate

open DseFmi.Library

def vrefText (s : Signal) : String :=
  match s.annotations.bind fun anns => anns.get "fmi_variable_vref" with
  | some (.int n) => itoa n
  | _ => ""

def busTexts (s : Signal) : List String :=
  match s.annotations.bind fun anns => anns.get "dse.standards.fmi-ls-bus-topology.rx_vref",
      s.annotations.bind fun anns => anns.get "dse.standards.fmi-ls-bus-topology.tx_vref" with
  | some (.ints [rx]), some (.ints [tx]) => [itoa rx, itoa tx]
  | _, _ => []

structure ScalarReady (s : Signal) (anns : Annotations) (causality : String) (vref : Int) :
    Prop where
  annotations : s.annotations = some anns
  causality : anns.get "fmi_variable_causality" = some (.string causality)
  vref : anns.get "fmi_variable_vref" = some (.int vref)

structure BusReady (s : Signal) (anns : Annotations) (rx tx : Int) : Prop where
  annotations : s.annotations = some anns
  rx : anns.get "dse.standards.fmi-ls-bus-topology.rx_vref" = some (.ints [rx])
  tx : anns.get "dse.standards.fmi-ls-bus-topology.tx_vref" = some (.ints [tx])

theorem Signal.annotation_eq {s : Signal} {anns : Annotations} (h : s.annotations = some anns)
    (k : String) : s.annotation k = .ok (anns.get k) := by
  unfold Signal.annotation
  rw [h]
  rfl

theorem eachSignal_refs {α : Type} {round : Signal → Go (Round α)} {ref : α → String}
    {texts : Signal → List String} {signals : List Signal}
    (spec : ∀ s ∈ signals, ∀ r, round s = .ok r →
      ∃ vars, r = .add vars ∧ vars.map ref = texts s)
    {added : List α} {error : Option String}
    (ran : eachSignal round signals = .ok (added, error)) :
    added.map ref = signals.flatMap texts := by
  induction signals generalizing added error with
  | nil =>
      cases ran
      rfl
  | cons s signals ih =>
      obtain ⟨r, first, ran⟩ := bind_eq_ok.mp ran
      obtain ⟨vars, rfl, refs⟩ := spec s List.mem_cons_self r first
      obtain ⟨⟨rest, stop⟩, later, ran⟩ := bind_eq_ok.mp ran
      cases ran
      rw [List.map_append, refs, List.flatMap_cons,
        ih (fun t member => spec t (List.mem_cons_of_mem s member)) later]

/-- The round of a bus adds an input and an output for its pair of references. -/
theorem busRound_refs {α : Type} {build : Signal → Int → String → Nat → Go α} {ref : α → String}
    (spec : ∀ s vref causality id v, build s vref causality id = .ok v → ref v = itoa vref)
    {s : Signal} {anns : Annotations} {rx tx : Int} (ready : BusReady s anns rx tx)
    {r : Round α} (ran : busRound build s = .ok r) :
    ∃ vars, r = .add vars ∧ vars.map ref = [itoa rx, itoa tx] := by
  have rx_vref : busVrefs s "dse.standards.fmi-ls-bus-topology.rx_vref" = .ok (some [rx]) := by
    rw [busVrefs, Signal.annotation_eq ready.annotations, ready.rx]
    rfl
  have tx_vref : busVrefs s "dse.standards.fmi-ls-bus-topology.tx_vref" = .ok (some [tx]) := by
    rw [busVrefs, Signal.annotation_eq ready.annotations, ready.tx]
    rfl
  rw [busRound, rx_vref] at ran
  change (busVrefs s _ >>= _) = _ at ran
  rw [tx_vref] at ran
  change (buildBinarySignals build s 1 [(rx, tx)] >>= _) = _ at ran
  obtain ⟨vars, built, ran⟩ := bind_eq_ok.mp ran
  obtain ⟨first, hfirst, built⟩ := bind_eq_ok.mp built
  obtain ⟨second, hsecond, built⟩ := bind_eq_ok.mp built
  cases built
  cases ran
  refine ⟨_, rfl, ?_⟩
  rw [List.map_cons, List.map_cons, spec _ _ _ _ _ hfirst, spec _ _ _ _ _ hsecond]
  rfl

theorem Fmi2.scalarRound_refs {s : Signal} {anns : Annotations} {causality : String} {vref : Int}
    (ready : ScalarReady s anns causality vref) {r : Round ScalarVariable}
    (ran : scalarRound s = .ok r) :
    ∃ vars, r = .add vars ∧ vars.map ScalarVariable.valueReference = [itoa vref] := by
  simp only [scalarRound, Signal.annotation_eq ready.annotations, ready.causality, ready.vref,
    ok_bind, Value.asString_string] at ran
  obtain ⟨annotations, _, ran⟩ := bind_eq_ok.mp ran
  cases ran
  exact ⟨_, rfl, rfl⟩

theorem Fmi2.stringRound_refs {s : Signal} {anns : Annotations} {causality : String} {vref : Int}
    (ready : ScalarReady s anns causality vref) {r : Round ScalarVariable}
    (ran : stringRound s = .ok r) :
    ∃ vars, r = .add vars ∧ vars.map ScalarVariable.valueReference = [itoa vref] := by
  simp only [stringRound, Signal.annotation_eq ready.annotations, ready.causality, ready.vref,
    ok_bind, Value.asString_string, Value.asInt_int] at ran
  obtain ⟨start, _, ran⟩ := bind_eq_ok.mp ran
  obtain ⟨annotations, _, ran⟩ := bind_eq_ok.mp ran
  cases ran
  exact ⟨_, rfl, rfl⟩

theorem Fmi2.buildBinarySignal_ref {s : Signal} {vref : Int} {causality : String} {id : Nat}
    {v : ScalarVariable} (built : buildBinarySignal s vref causality id = .ok v) :
    v.valueReference = itoa vref := by
  obtain ⟨busId, _, built⟩ := bind_eq_ok.mp built
  obtain ⟨mimeType, _, built⟩ := bind_eq_ok.mp built
  obtain ⟨encoding, _, built⟩ := bind_eq_ok.mp built
  obtain ⟨startValue, _, built⟩ := bind_eq_ok.mp built
  obtain ⟨start, _, built⟩ := bind_eq_ok.mp built
  cases built
  rfl

theorem Fmi3.scalarRound_refs {s : Signal} {anns : Annotations} {causality : String} {vref : Int}
    (ready : ScalarReady s anns causality vref) {r : Round Float}
    (ran : scalarRound s = .ok r) :
    ∃ vars, r = .add vars ∧ vars.map Float.valueReference = [itoa vref] := by
  simp only [scalarRound, Signal.stringAnnotation, Signal.annotation_eq ready.annotations,
    ready.causality, ready.vref, ok_bind, Value.asString_string, Value.asInt_int] at ran
  obtain ⟨start, _, ran⟩ := bind_eq_ok.mp ran
  obtain ⟨annotations, _, ran⟩ := bind_eq_ok.mp ran
  cases ran
  exact ⟨_, rfl, rfl⟩

theorem Fmi3.stringRound_refs {s : Signal} {anns : Annotations} {causality : String} {vref : Int}
    (ready : ScalarReady s anns causality vref) {r : Round Binary}
    (ran : stringRound s = .ok r) :
    ∃ vars, r = .add vars ∧ vars.map Binary.valueReference = [itoa vref] := by
  simp only [stringRound, Signal.stringAnnotation, Signal.annotation_eq ready.annotations,
    ready.causality, ready.vref, ok_bind, Value.asString_string, Value.asInt_int] at ran
  obtain ⟨start, _, ran⟩ := bind_eq_ok.mp ran
  obtain ⟨annotations, _, ran⟩ := bind_eq_ok.mp ran
  cases ran
  exact ⟨_, rfl, rfl⟩

theorem Fmi3.buildBinarySignal_ref {s : Signal} {vref : Int} {causality : String} {id : Nat}
    {v : Binary} (built : buildBinarySignal s vref causality id = .ok v) :
    v.valueReference = itoa vref := by
  obtain ⟨busId, _, built⟩ := bind_eq_ok.mp built
  obtain ⟨mimeType, _, built⟩ := bind_eq_ok.mp built
  obtain ⟨encoding, _, built⟩ := bind_eq_ok.mp built
  obtain ⟨startValue, _, built⟩ := bind_eq_ok.mp built
  obtain ⟨start, _, built⟩ := bind_eq_ok.mp built
  cases built
  rfl

def ScalarExported (s : Signal) : Prop := ∃ anns causality vref, ScalarReady s anns causality vref

def BusExported (s : Signal) : Prop := ∃ anns rx tx, BusReady s anns rx tx

theorem ScalarReady.vrefText_eq {s : Signal} {anns : Annotations} {causality : String} {vref : Int}
    (ready : ScalarReady s anns causality vref) : vrefText s = itoa vref := by
  rw [vrefText, ready.annotations, Option.bind_some, ready.vref]

theorem BusReady.busTexts_eq {s : Signal} {anns : Annotations} {rx tx : Int}
    (ready : BusReady s anns rx tx) : busTexts s = [itoa rx, itoa tx] := by
  rw [busTexts, ready.annotations, Option.bind_some, Option.bind_some, ready.rx, ready.tx]

def groupTexts (sg : SignalGroup) : List String :=
  match sg.metadata with
  | none => []
  | some metadata =>
      if metadata.isBinary then sg.signals.flatMap busTexts
      else sg.signals.flatMap fun s => [vrefText s]

theorem groupTexts_scalar {sg : SignalGroup} {metadata : ObjectMetadata}
    (stored : sg.metadata = some metadata) (scalar : metadata.isBinary = false) :
    groupTexts sg = sg.signals.flatMap fun s => [vrefText s] := by
  simp [groupTexts, stored, scalar]

theorem groupTexts_binary {sg : SignalGroup} {metadata : ObjectMetadata}
    (stored : sg.metadata = some metadata) (binary : metadata.isBinary = true) :
    groupTexts sg = sg.signals.flatMap busTexts := by
  simp [groupTexts, stored, binary]

structure GroupExported (sg : SignalGroup) (metadata : ObjectMetadata) : Prop where
  stored : sg.metadata = some metadata
  scalar : metadata.isBinary = false → ∀ s ∈ sg.signals, ScalarExported s
  binary : metadata.isBinary = true → ∀ s ∈ sg.signals, BusExported s

section Version

variable {M α : Type} {refs : M → List String}

/-- Adding variables one after the other adds their references, in any order. -/
theorem foldl_refs {δ : Type} {refs : M → List δ} {add : M → α → M} {ref : α → δ}
    (step : ∀ md v, (refs (add md v)).Perm (refs md ++ [ref v])) (added : List α) (md : M) :
    (refs (added.foldl add md)).Perm (refs md ++ added.map ref) := by
  induction added generalizing md with
  | nil => simp
  | cons v added ih =>
      refine (ih (add md v)).trans ?_
      rw [List.map_cons, ← List.singleton_append, ← List.append_assoc]
      exact (step md v).append_right _

/-- What a loop over signals does to the references of a model description. -/
theorem signals_refs {add : M → α → M} {ref : α → String} {round : Signal → Go (Round α)}
    {texts : Signal → List String} {signals : List Signal}
    (step : ∀ md v, (refs (add md v)).Perm (refs md ++ [ref v]))
    (spec : ∀ s ∈ signals, ∀ r, round s = .ok r →
      ∃ vars, r = .add vars ∧ vars.map ref = texts s)
    {md : M} {result : M × Option String}
    (ran : (eachSignal round signals >>= fun added =>
      pure (added.1.foldl add md, added.2)) = Except.ok result) :
    (refs result.1).Perm (refs md ++ signals.flatMap texts) := by
  obtain ⟨⟨added, error⟩, loop, ran⟩ := bind_eq_ok.mp ran
  cases ran
  rw [← eachSignal_refs spec loop]
  exact foldl_refs step added md

structure GroupSpec (refs : M → List String) (round : M → ObjectMetadata → List Signal → Go M) :
    Prop where
  scalar : ∀ md md' metadata signals, metadata.isBinary = false →
    (∀ s ∈ signals, ScalarExported s) → round md metadata signals = .ok md' →
    (refs md').Perm (refs md ++ signals.flatMap fun s => [vrefText s])
  binary : ∀ md md' metadata signals, metadata.isBinary = true →
    (∀ s ∈ signals, BusExported s) → round md metadata signals = .ok md' →
    (refs md').Perm (refs md ++ signals.flatMap busTexts)

theorem GroupSpec.eachGroup {round : M → ObjectMetadata → List Signal → Go M}
    (spec : GroupSpec refs round) {groups : List SignalGroup}
    (exported : ∀ sg ∈ groups, ∃ metadata, GroupExported sg metadata) {md md' : M}
    {channels channels' : List String}
    (ran : eachGroup round (md, channels) groups = .ok (md', channels')) :
    (refs md').Perm (refs md ++ groups.flatMap groupTexts) := by
  induction groups generalizing md channels with
  | nil =>
      cases ran
      simp
  | cons sg groups ih =>
      obtain ⟨metadata, ready⟩ := exported sg List.mem_cons_self
      rw [DseFmi.Generate.eachGroup, ready.stored] at ran
      obtain ⟨_, _, ran⟩ := bind_eq_ok.mp (show (deref metadata.name >>= _) = _ from ran)
      obtain ⟨after, round, ran⟩ := bind_eq_ok.mp ran
      have rest := ih (fun sg later => exported sg (List.mem_cons_of_mem _ later)) ran
      have first : (refs after).Perm (refs md ++ groupTexts sg) := by
        cases binary : metadata.isBinary with
        | false =>
            rw [groupTexts_scalar ready.stored binary]
            exact spec.scalar md after metadata _ binary (ready.scalar binary) round
        | true =>
            rw [groupTexts_binary ready.stored binary]
            exact spec.binary md after metadata _ binary (ready.binary binary) round
      rw [List.flatMap_cons, ← List.append_assoc]
      exact rest.trans (first.append_right _)

end Version

namespace Fmi2

def refs (md : ModelDescription) : List String :=
  md.scalarVariable.map ScalarVariable.valueReference

theorem refs_addVariable (md : ModelDescription) (v : ScalarVariable) :
    (refs (addVariable md v)).Perm (refs md ++ [v.valueReference]) := by
  rw [addVariable]
  split <;> simp [refs, expandModelStructure]

theorem scalarSignal_refs {signals : List Signal} (exported : ∀ s ∈ signals, ScalarExported s)
    {md : ModelDescription} {result : ModelDescription × Option String}
    (ran : scalarSignal md signals = .ok result) :
    (refs result.1).Perm (refs md ++ signals.flatMap fun s => [vrefText s]) := by
  refine signals_refs refs_addVariable (fun s member r round => ?_) ran
  obtain ⟨anns, causality, vref, ready⟩ := exported s member
  rw [ready.vrefText_eq]
  exact scalarRound_refs ready round

theorem stringSignal_refs {signals : List Signal} (exported : ∀ s ∈ signals, ScalarExported s)
    {md : ModelDescription} {result : ModelDescription × Option String}
    (ran : stringSignal md signals = .ok result) :
    refs result.1 = refs md ++ signals.flatMap fun s => [vrefText s] := by
  obtain ⟨⟨added, error⟩, loop, ran⟩ := bind_eq_ok.mp ran
  cases ran
  have texts : added.map ScalarVariable.valueReference = signals.flatMap fun s => [vrefText s] := by
    apply eachSignal_refs _ loop
    intro s member r round
    obtain ⟨anns, causality, vref, ready⟩ := exported s member
    rw [ready.vrefText_eq]
    exact stringRound_refs ready round
  rw [refs, List.map_append, texts, refs]

theorem binarySignal_refs {signals : List Signal} (exported : ∀ s ∈ signals, BusExported s)
    {md : ModelDescription} {result : ModelDescription × Option String}
    (ran : binarySignal md signals = .ok result) :
    (refs result.1).Perm (refs md ++ signals.flatMap busTexts) := by
  refine signals_refs refs_addVariable (fun s member r round => ?_) ran
  obtain ⟨anns, rx, tx, ready⟩ := exported s member
  rw [ready.busTexts_eq]
  exact busRound_refs (fun _ _ _ _ _ => buildBinarySignal_ref) ready round

theorem groupSpec : GroupSpec refs groupVariables where
  scalar md md' metadata signals isScalar exported ran := by
    rw [groupVariables, isScalar] at ran
    obtain ⟨result, loop, ran⟩ := bind_eq_ok.mp ran
    cases ran
    exact scalarSignal_refs exported loop
  binary md md' metadata signals isBinary exported ran := by
    rw [groupVariables, isBinary] at ran
    obtain ⟨result, loop, ran⟩ := bind_eq_ok.mp ran
    cases ran
    exact binarySignal_refs exported loop

end Fmi2

namespace Fmi3

def refs (md : ModelDescription) : List String :=
  md.float64.map Float.valueReference ++ md.string.map Binary.valueReference ++
    md.binary.map Binary.valueReference

theorem refs_addFloat64 (md : ModelDescription) (v : Float) :
    (refs (addFloat64 md v)).Perm (refs md ++ [v.valueReference]) := by
  have same : refs (addFloat64 md v) =
      md.float64.map Float.valueReference ++ [v.valueReference] ++
        (md.string.map Binary.valueReference ++ md.binary.map Binary.valueReference) := by
    rw [addFloat64]
    split <;> simp [refs, outputModelStructure]
  rw [same, refs, List.append_assoc, List.append_assoc, List.append_assoc]
  exact List.perm_append_comm.append_left _ |>.trans (by simp)

theorem refs_addString (md : ModelDescription) (v : Binary) :
    (refs (addString md v)).Perm (refs md ++ [v.valueReference]) := by
  have same : refs (addString md v) =
      md.float64.map Float.valueReference ++ md.string.map Binary.valueReference ++
        ([v.valueReference] ++ md.binary.map Binary.valueReference) := by
    rw [addString]
    split <;> simp [refs, outputModelStructure]
  rw [same, refs, List.append_assoc _ _ [v.valueReference]]
  exact List.perm_append_comm.append_left _

theorem refs_addBinary (md : ModelDescription) (v : Binary) :
    (refs (addBinary md v)).Perm (refs md ++ [v.valueReference]) := by
  rw [addBinary]
  split <;> simp [refs, outputModelStructure]

theorem scalarSignal_refs {signals : List Signal} (exported : ∀ s ∈ signals, ScalarExported s)
    {md : ModelDescription} {result : ModelDescription × Option String}
    (ran : scalarSignal md signals = .ok result) :
    (refs result.1).Perm (refs md ++ signals.flatMap fun s => [vrefText s]) := by
  refine signals_refs refs_addFloat64 (fun s member r round => ?_) ran
  obtain ⟨anns, causality, vref, ready⟩ := exported s member
  rw [ready.vrefText_eq]
  exact scalarRound_refs ready round

theorem stringSignal_refs {signals : List Signal} (exported : ∀ s ∈ signals, ScalarExported s)
    {md : ModelDescription} {result : ModelDescription × Option String}
    (ran : stringSignal md signals = .ok result) :
    (refs result.1).Perm (refs md ++ signals.flatMap fun s => [vrefText s]) := by
  refine signals_refs refs_addString (fun s member r round => ?_) ran
  obtain ⟨anns, causality, vref, ready⟩ := exported s member
  rw [ready.vrefText_eq]
  exact stringRound_refs ready round

theorem binarySignal_refs {signals : List Signal} (exported : ∀ s ∈ signals, BusExported s)
    {md : ModelDescription} {result : ModelDescription × Option String}
    (ran : binarySignal md signals = .ok result) :
    (refs result.1).Perm (refs md ++ signals.flatMap busTexts) := by
  refine signals_refs refs_addBinary (fun s member r round => ?_) ran
  obtain ⟨anns, rx, tx, ready⟩ := exported s member
  rw [ready.busTexts_eq]
  exact busRound_refs (fun _ _ _ _ _ => buildBinarySignal_ref) ready round

theorem groupSpec : GroupSpec refs groupVariables where
  scalar md md' metadata signals isScalar exported ran := by
    rw [groupVariables, isScalar] at ran
    obtain ⟨result, loop, ran⟩ := bind_eq_ok.mp ran
    cases ran
    exact scalarSignal_refs exported loop
  binary md md' metadata signals isBinary exported ran := by
    rw [groupVariables, isBinary] at ran
    obtain ⟨result, loop, ran⟩ := bind_eq_ok.mp ran
    cases ran
    exact binarySignal_refs exported loop

end Fmi3

structure ParametersDrawn (c : Gateway) : Prop where
  exported : ∀ s ∈ c.realParams ++ c.stringParams, ScalarExported s
  refs : ((c.realParams ++ c.stringParams).map vrefText).Perm
    ((List.range c.signalIdx).map Nat.repr)

theorem parameter_ready (name : String) (vref : Nat) (start : Option String) (key : String) :
    ∃ anns, ScalarReady (parameter name vref start key) anns "parameter" vref := by
  cases start with
  | none => exact ⟨_, rfl, rfl, rfl⟩
  | some start => exact ⟨_, rfl, rfl, rfl⟩

theorem ParametersDrawn.addParameter {c : Gateway} (drawn : ParametersDrawn c)
    (type : ParameterType) (name : String) (start : Option String) (key : String) :
    ParametersDrawn (c.addParameter type name start key) := by
  obtain ⟨anns, ready⟩ := parameter_ready name c.signalIdx start key
  have text : vrefText (parameter name c.signalIdx start key) = Nat.repr c.signalIdx :=
    ready.vrefText_eq
  have next : ((List.range (c.signalIdx + 1)).map Nat.repr) =
      (List.range c.signalIdx).map Nat.repr ++ [Nat.repr c.signalIdx] := by
    rw [List.range_succ, List.map_append, List.map_singleton]
  cases type with
  | real =>
      have moved : (c.realParams ++ [parameter name c.signalIdx start key] ++
          c.stringParams).Perm
          (c.realParams ++ c.stringParams ++ [parameter name c.signalIdx start key]) := by
        rw [List.append_assoc, List.append_assoc]
        exact List.perm_append_comm.append_left _
      refine ⟨fun s member => ?_, ?_⟩
      · cases List.mem_append.mp (moved.mem_iff.mp member) with
        | inl old => exact drawn.exported s old
        | inr new =>
            rw [List.mem_singleton.mp new]
            exact ⟨anns, _, _, ready⟩
      · refine (moved.map vrefText).trans ?_
        rw [List.map_append, List.map_singleton, text]
        exact next ▸ drawn.refs.append_right _
  | string =>
      have moved : c.realParams ++ (c.stringParams ++
          [parameter name c.signalIdx start key]) =
          c.realParams ++ c.stringParams ++ [parameter name c.signalIdx start key] :=
        (List.append_assoc ..).symm
      refine ⟨fun s member => ?_, ?_⟩
      · cases List.mem_append.mp (moved ▸ member) with
        | inl old => exact drawn.exported s old
        | inr new =>
            rw [List.mem_singleton.mp new]
            exact ⟨anns, _, _, ready⟩
      · show (List.map vrefText (c.realParams ++ (c.stringParams ++ [_]))).Perm _
        rw [moved, List.map_append, List.map_singleton, text]
        exact next ▸ drawn.refs.append_right _

theorem parametersDrawn_new : ParametersDrawn newFmiGatewayCommand :=
  ⟨fun _ member => absurd member List.not_mem_nil, .nil⟩

theorem ParametersDrawn.of_same {c d : Gateway} (drawn : ParametersDrawn c)
    (real : d.realParams = c.realParams) (string : d.stringParams = c.stringParams)
    (counter : d.signalIdx = c.signalIdx) : ParametersDrawn d := by
  refine ⟨?_, ?_⟩
  · rw [real, string]
    exact drawn.exported
  · rw [real, string, counter]
    exact drawn.refs

theorem ParametersDrawn.createRuntime {c : Gateway} (drawn : ParametersDrawn c) (runtime : String) :
    ParametersDrawn (c.createRuntime runtime) := by
  have named : ∀ annotations, ParametersDrawn { c with annotations } := fun annotations =>
    drawn.of_same rfl rfl rfl
  unfold Gateway.createRuntime
  split
  · have added := ((named c.annotations).addParameter .real "Simer_Command_Selector" none
      simerParameter).addParameter .string "Simer_Command" none simerParameter
    exact added.of_same rfl rfl rfl
  · exact named _

theorem parametersDrawn_collected : Collected ParametersDrawn where
  times _ _ _ _ drawn := drawn.of_same rfl rfl rfl
  parameter _ type name start drawn := drawn.addParameter type name (some start) scriptParameter

theorem ParametersDrawn.collectParameters {c d : Gateway} (drawn : ParametersDrawn c)
    {args : Arguments} (ran : c.collectParameters args = .ok d) : ParametersDrawn d :=
  parametersDrawn_collected.collectParameters (drawn.createRuntime _) ran

end DseFmi.Generate
