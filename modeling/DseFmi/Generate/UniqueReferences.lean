import DseFmi.Generate.ValueReferences
import DseFmi.Library.Decimal

/-!
# Distinct value references

The references of a run are distinct exactly when every exported signal but the last one
is a scalar: a binary signal leaves the counter on its own references.
-/

namespace DseFmi.Generate

open DseFmi.Library

inductive Export where
  | scalar
  | binary
  deriving DecidableEq, Repr

/-- What an exported signal takes from the counter, and how it advances it. -/
def Export.draw : Export → Draw
  | .scalar => ⟨1, 1⟩
  | .binary => ⟨2, 0⟩

/-- A signal that is kept inside the simulation. -/
def isLocal (s : Signal) : Bool :=
  match s.annotations.map effectiveCausality with
  | some (.ok causality) => causality = "local"
  | _ => false

/-- The exports of a scalar group, with the names met so far. -/
def scalarExports (usedSignals : List String) : List Signal → List String × List Export
  | [] => (usedSignals, [])
  | s :: signals =>
      if s.signal ∈ usedSignals then scalarExports usedSignals signals
      else
        let (usedSignals, rest) := scalarExports (usedSignals ++ [s.signal]) signals
        (usedSignals, if isLocal s then rest else .scalar :: rest)

def groupExports (usedSignals : List String) (sg : SignalGroup) : List String × List Export :=
  match sg.metadata with
  | none => (usedSignals, [])
  | some metadata =>
      if metadata.isBinary then (usedSignals, sg.signals.map fun _ => .binary)
      else scalarExports usedSignals sg.signals

def exportsFrom (usedSignals : List String) : List SignalGroup → List Export
  | [] => []
  | sg :: groups =>
      (groupExports usedSignals sg).2 ++ exportsFrom (groupExports usedSignals sg).1 groups

def exportsOf (args : Arguments) : List Export :=
  exportsFrom [] (args.signalGroups.filterMap Except.toOption)

theorem exportedScalar_ready (s : Signal) (vr : Nat) (causality sgType name : String) :
    ScalarReady { s with annotations := some (exportedScalar vr causality sgType name) }
      (exportedScalar vr causality sgType name) causality vr :=
  ⟨rfl, rfl, rfl⟩

theorem exportedBinary_ready (s : Signal) (vr : Nat) (anns : Annotations) :
    BusReady { s with annotations := some (exportedBinary vr anns) } (exportedBinary vr anns)
      vr (vr + 1) := by
  refine ⟨rfl, ?_, ?_⟩
  · rw [exportedBinary, get_insert_ne _ _ (by decide)]
    exact get_insert_self _ _ (by simp)
  · exact get_insert_self _ _ (by simp)

/-- The patched signals of a scalar group draw their references from the counter. -/
theorem patchScalars_spec {sgType : String} {signals patched : List Signal}
    {state after : PatchState} (ran : patchScalars sgType state signals = .ok (after, patched)) :
    let exports := scalarExports state.usedSignals signals
    let draws := exports.2.map Export.draw
    (∀ s ∈ patched, ScalarExported s) ∧
      (patched.flatMap fun s => [vrefText s]) = (ids state.vr draws).map Nat.repr ∧
      after = ⟨counter state.vr draws, exports.1⟩ := by
  induction signals generalizing state patched after with
  | nil =>
      cases ran
      exact ⟨fun _ member => absurd member List.not_mem_nil, rfl, rfl⟩
  | cons s signals ih =>
      rw [patchScalars] at ran
      by_cases used : s.signal ∈ state.usedSignals
      · rw [if_pos used] at ran
        simp only [scalarExports, if_pos used]
        exact ih ran
      · rw [if_neg used] at ran
        obtain ⟨anns, hanns, ran⟩ := bind_eq_ok.mp ran
        obtain ⟨causality, hcausality, ran⟩ := bind_eq_ok.mp ran
        have stored : s.annotations = some anns := eq_some_of_deref hanns
        have local_iff : isLocal s = decide (causality = "local") := by
          rw [isLocal, stored, Option.map_some, hcausality]
        simp only [scalarExports, if_neg used, local_iff, decide_eq_true_eq]
        by_cases kept : causality = "local"
        · rw [if_pos kept] at ran ⊢
          exact ih ran
        · rw [if_neg kept] at ran ⊢
          obtain ⟨⟨next, rest⟩, hrest, ran⟩ := bind_eq_ok.mp ran
          cases ran
          have ready := exportedScalar_ready s state.vr causality sgType s.signal
          obtain ⟨exported, texts, rfl⟩ := ih hrest
          refine ⟨List.forall_mem_cons.mpr ⟨⟨_, _, _, ready⟩, exported⟩, ?_, ?_⟩
          · rw [List.flatMap_cons, texts, ready.vrefText_eq]
            rfl
          · rw [List.map_cons, counter_cons]
            rfl

theorem patchBinary_spec {vr : Nat} {signals patched : List Signal}
    (ran : patchBinary vr signals = .ok patched) :
    let draws := signals.map fun _ => Export.draw .binary
    (∀ s ∈ patched, BusExported s) ∧
      patched.flatMap busTexts = (ids vr draws).map Nat.repr ∧ counter vr draws = vr := by
  induction signals generalizing patched with
  | nil =>
      cases ran
      exact ⟨fun _ member => absurd member List.not_mem_nil, rfl, rfl⟩
  | cons s signals ih =>
      obtain ⟨anns, _, ran⟩ := bind_eq_ok.mp ran
      obtain ⟨rest, hrest, ran⟩ := bind_eq_ok.mp ran
      cases ran
      have ready := exportedBinary_ready s vr anns
      obtain ⟨exported, texts, same⟩ := ih hrest
      refine ⟨List.forall_mem_cons.mpr ⟨⟨_, _, _, ready⟩, exported⟩, ?_, ?_⟩
      · rw [List.flatMap_cons, texts, ready.busTexts_eq]
        rfl
      · rw [List.map_cons, counter_cons]
        exact same

theorem isBinary_labels (metadata : ObjectMetadata)
    (labels : Option (AList fun _ : String => String)) :
    ObjectMetadata.isBinary { metadata with labels } = metadata.isBinary := rfl

theorem patchGroup_spec {name : String} {state after : PatchState} {sg patched : SignalGroup}
    (ran : patchGroup name state sg = .ok (after, patched)) :
    let exports := groupExports state.usedSignals sg
    let draws := exports.2.map Export.draw
    (∃ metadata, GroupExported patched metadata) ∧
      groupTexts patched = (ids state.vr draws).map Nat.repr ∧
      after = ⟨counter state.vr draws, exports.1⟩ := by
  obtain ⟨metadata, hmetadata, ran⟩ := bind_eq_ok.mp ran
  obtain ⟨⟨next, signals⟩, hsignals, ran⟩ := bind_eq_ok.mp ran
  cases ran
  have stored : sg.metadata = some metadata := eq_some_of_deref hmetadata
  cases binary : metadata.isBinary with
  | false =>
      rw [binary] at hsignals
      obtain ⟨exported, texts, rfl⟩ := patchScalars_spec hsignals
      simp only [groupExports, stored, binary, Bool.false_eq_true, if_false]
      have scalar := (isBinary_labels metadata
        (some ((metadata.labels.getD ∅).insert "model" name))).trans binary
      refine ⟨⟨_, rfl, fun _ => exported, fun other => ?_⟩, ?_, trivial⟩
      · exact absurd (scalar.symm.trans other) (by decide)
      · rw [groupTexts_scalar rfl scalar]
        exact texts
  | true =>
      rw [binary] at hsignals
      obtain ⟨patched, hpatched, hsignals⟩ := bind_eq_ok.mp hsignals
      cases hsignals
      obtain ⟨exported, texts, same⟩ := patchBinary_spec hpatched
      simp only [groupExports, stored, binary, if_true, List.map_map]
      have bus := (isBinary_labels metadata
        (some ((metadata.labels.getD ∅).insert "model" name))).trans binary
      refine ⟨⟨_, rfl, fun other => ?_, fun _ => exported⟩, ?_, ?_⟩
      · exact absurd (bus.symm.trans other) (by decide)
      · rw [groupTexts_binary rfl bus]
        exact texts
      · exact congrArg (PatchState.mk · state.usedSignals) same.symm

theorem patchGroups_spec {name : String} {state after : PatchState}
    {groups : List (Except String SignalGroup)} {patched : List SignalGroup}
    (ran : patchGroups name state groups = .ok (after, patched)) :
    let draws := (exportsFrom state.usedSignals (groups.filterMap Except.toOption)).map Export.draw
    (∀ sg ∈ patched, ∃ metadata, GroupExported sg metadata) ∧
      patched.flatMap groupTexts = (ids state.vr draws).map Nat.repr := by
  induction groups generalizing state after patched with
  | nil =>
      cases ran
      exact ⟨fun _ member => absurd member List.not_mem_nil, rfl⟩
  | cons sg groups ih =>
      obtain ⟨sg, read, ran⟩ := bind_eq_ok.mp ran
      obtain ⟨⟨next, first⟩, hfirst, ran⟩ := bind_eq_ok.mp ran
      obtain ⟨⟨last, rest⟩, hrest, ran⟩ := bind_eq_ok.mp ran
      cases ran
      cases ofResult_eq_ok read
      obtain ⟨ready, texts, rfl⟩ := patchGroup_spec (ofGo_eq_ok.mp hfirst)
      obtain ⟨exported, later⟩ := ih hrest
      refine ⟨?_, ?_⟩
      · intro g member
        cases List.mem_cons.mp member with
        | inl same => exact same ▸ ready
        | inr other => exact exported g other
      · simp only [List.filterMap_cons, Except.toOption, exportsFrom, List.map_append, ids_append]
        rw [List.flatMap_cons, texts, later]

theorem flatMap_vrefText (signals : List Signal) :
    (signals.flatMap fun s => [vrefText s]) = signals.map vrefText :=
  (List.map_eq_flatMap ..).symm

structure AllExported (c : Gateway) : Prop where
  real : ∀ s ∈ c.realParams, ScalarExported s
  string : ∀ s ∈ c.stringParams, ScalarExported s
  groups : ∀ sg ∈ c.signalGroupFile, ∃ metadata, GroupExported sg metadata

theorem buildFmi2XmlSignals_refs {c : Gateway} (exported : AllExported c)
    {md md' : Fmi2.ModelDescription} {channels : List String}
    (ran : c.buildFmi2XmlSignals md = .ok (md', channels)) :
    (Fmi2.refs md').Perm (Fmi2.refs md ++ (c.realParams ++ c.stringParams).map vrefText ++
      c.signalGroupFile.flatMap groupTexts) := by
  obtain ⟨⟨real, _⟩, hreal, ran⟩ := bind_eq_ok.mp ran
  obtain ⟨⟨string, _⟩, hstring, ran⟩ := bind_eq_ok.mp ran
  have first := Fmi2.scalarSignal_refs exported.real hreal
  have second := Fmi2.stringSignal_refs exported.string hstring
  have third := Fmi2.groupSpec.eachGroup exported.groups ran
  rw [flatMap_vrefText] at first second
  refine third.trans (List.Perm.append_right _ ?_)
  rw [second, List.map_append, ← List.append_assoc]
  exact first.append_right _

theorem buildFmi3XmlSignals_refs {c : Gateway} (exported : AllExported c)
    {md md' : Fmi3.ModelDescription} {channels : List String}
    (ran : c.buildFmi3XmlSignals md = .ok (md', channels)) :
    (Fmi3.refs md').Perm (Fmi3.refs md ++ (c.realParams ++ c.stringParams).map vrefText ++
      c.signalGroupFile.flatMap groupTexts) := by
  obtain ⟨⟨real, _⟩, hreal, ran⟩ := bind_eq_ok.mp ran
  obtain ⟨⟨string, _⟩, hstring, ran⟩ := bind_eq_ok.mp ran
  have first := Fmi3.scalarSignal_refs exported.real hreal
  have second := Fmi3.stringSignal_refs exported.string hstring
  have third := Fmi3.groupSpec.eachGroup exported.groups ran
  rw [flatMap_vrefText] at first second
  refine third.trans (List.Perm.append_right _ ?_)
  rw [List.map_append, ← List.append_assoc]
  exact second.trans (first.append_right _)

theorem createFmuXml_refs {c : Gateway} (exported : AllExported c) {args : Arguments}
    {xml : FmuXml} {channels : List String} (ran : c.createFmuXml args = .ok (xml, channels)) :
    xml.valueReferences.Perm ((c.realParams ++ c.stringParams).map vrefText ++
      c.signalGroupFile.flatMap groupTexts) := by
  obtain ⟨user, _, ran⟩ := bind_eq_ok.mp ran
  dsimp only at ran
  split at ran
  · obtain ⟨⟨md, _⟩, built, ran⟩ := bind_eq_ok.mp ran
    cases ran
    exact buildFmi2XmlSignals_refs exported (ofGo_eq_ok.mp built)
  · split at ran
    · obtain ⟨⟨md, _⟩, built, ran⟩ := bind_eq_ok.mp ran
      cases ran
      exact buildFmi3XmlSignals_refs exported (ofGo_eq_ok.mp built)
    · cases ran

/-- The references of the model description, up to their order: those of the parameters
and then what the exported signals draw. -/
theorem generate_refs {args : Arguments} {xml : FmuXml} {channels : List String}
    (ran : generate args = .ok (xml, channels)) :
    ∃ count, xml.valueReferences.Perm
      ((ids 0 (List.replicate count ⟨1, 1⟩ ++ (exportsOf args).map Export.draw)).map
        Nat.repr) := by
  obtain ⟨c, collected, ran⟩ := bind_eq_ok.mp ran
  obtain ⟨d, merged, ran⟩ := bind_eq_ok.mp ran
  obtain ⟨⟨state, groups⟩, patched, merged⟩ := bind_eq_ok.mp merged
  cases merged
  have drawn := parametersDrawn_new.collectParameters collected
  obtain ⟨exported, texts⟩ := patchGroups_spec patched
  have all : AllExported { c with signalIdx := state.vr, signalGroupFile := groups } :=
    ⟨fun s member => drawn.exported s (List.mem_append_left _ member),
      fun s member => drawn.exported s (List.mem_append_right _ member), exported⟩
  refine ⟨c.signalIdx, (createFmuXml_refs all ran).trans ?_⟩
  rw [ids_append, ids_replicate, counter_replicate, Nat.zero_add, ← List.range_eq_range', texts,
    List.map_append (f := Nat.repr)]
  exact drawn.refs.append_right _

theorem forall_dropLast_append {α : Type} {p : α → Prop} {xs ys : List α}
    (first : ∀ x ∈ xs, p x) :
    (∀ x ∈ (xs ++ ys).dropLast, p x) ↔ ∀ y ∈ ys.dropLast, p y := by
  cases ys with
  | nil =>
      rw [List.append_nil]
      constructor
      · intro _ y member
        exact absurd member List.not_mem_nil
      · intro _ x member
        exact first x (List.dropLast_subset xs member)
  | cons y ys =>
      rw [List.dropLast_append_of_ne_nil (List.cons_ne_nil y ys)]
      constructor
      · intro all z member
        exact all z (List.mem_append_right xs member)
      · intro later z member
        cases List.mem_append.mp member with
        | inl here => exact first z here
        | inr there => exact later z there

/-- The value references of a generated model description are pairwise distinct exactly
when every exported signal but the last one is a scalar. -/
theorem generate_nodup_iff {args : Arguments} {xml : FmuXml} {channels : List String}
    (ran : generate args = .ok (xml, channels)) :
    xml.valueReferences.Nodup ↔ ∀ e ∈ (exportsOf args).dropLast, e = .scalar := by
  obtain ⟨count, refs⟩ := generate_refs ran
  have positive : ∀ d ∈ List.replicate count ⟨1, 1⟩ ++ (exportsOf args).map Export.draw,
      0 < d.width := by
    intro d member
    cases List.mem_append.mp member with
    | inl parameter =>
        rw [List.eq_of_mem_replicate parameter]
        decide
    | inr signal =>
        obtain ⟨e, _, rfl⟩ := List.mem_map.mp signal
        cases e <;> decide
  have parameters : ∀ d ∈ List.replicate count (⟨1, 1⟩ : Draw), d.width ≤ d.advance := by
    intro d member
    rw [List.eq_of_mem_replicate member]
  rw [refs.nodup_iff, List.nodup_map_iff fun _ _ => Nat.repr_injective, ids_nodup_iff positive,
    forall_dropLast_append parameters, ← List.map_dropLast, List.forall_mem_map]
  refine forall₂_congr fun e _ => ?_
  cases e with
  | scalar => simp [Export.draw]
  | binary => simp [Export.draw]

def group (name : String) (annotations : Option Annotations) (signals : List Signal) :
    SignalGroup :=
  { metadata := some { name := some name, annotations, labels := none }, signals }

def networkGroup : SignalGroup :=
  let annotations : Annotations := (∅ : Annotations).insert "vector_type" (.string "binary")
  let can : Annotations := (∅ : Annotations).insert "mime_type" (.string "type=frame; bus=can")
    |>.insert "dse.standards.fmi-ls-binary-to-text.encoding" (.string "ascii85")
    |>.insert "dse.standards.fmi-ls-bus-topology.bus_id" (.int 1)
  group "network_vector" (some annotations) [⟨"can", some can⟩]

def scalarGroup : SignalGroup :=
  let input : Annotations := (∅ : Annotations).insert "softecu_direction" (.string "M2E")
  group "scalar_vector" none [⟨"speed", some input⟩]

/-- A run with some signal groups, without a stack or a file of parameters. -/
def runWith (fmiVersion : String) (groups : List SignalGroup) : Arguments where
  name := "fmugw"
  runtime := "simer"
  fmiVersion
  stack := none
  parameters := none
  signalGroups := groups.map Except.ok
  annotation := .ok ∅
  mapOrder := ⟨id, perm_id⟩

theorem generate_nodup_scalar_first :
    let args := runWith "2" [scalarGroup, networkGroup]
    ∃ xml channels, generate args = .ok (xml, channels) ∧
      exportsOf args = [.scalar, .binary] ∧
      (xml.valueReferences.Nodup ↔ ∀ e ∈ (exportsOf args).dropLast, e = .scalar) := by
  obtain ⟨⟨xml, channels⟩, ran⟩ : ∃ result,
      generate (runWith "2" [scalarGroup, networkGroup]) = .ok result := ⟨_, rfl⟩
  exact ⟨xml, channels, ran, rfl, generate_nodup_iff ran⟩

/-- A binary signal before a scalar one: the input of the bus and the scalar have the same
reference. -/
theorem generate_not_nodup_network_first :
    ∃ xml channels, generate (runWith "2" [networkGroup, scalarGroup]) = .ok (xml, channels) ∧
      xml.valueReferences = ["0", "1", "2", "3", "2"] ∧ ¬ xml.valueReferences.Nodup :=
  ⟨_, _, rfl, rfl, by decide⟩

end DseFmi.Generate
