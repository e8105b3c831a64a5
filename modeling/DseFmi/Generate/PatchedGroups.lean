import DseFmi.Generate.MergedGroups
import DseFmi.Generate.ReadableStack
import DseFmi.Generate.VersionAgreement

/-!
# The merge of groups of any kind

The merge reads the causality of a scalar, unless its name was met before, and only the
annotations of a bus. The scalars it leaves can be read; the buses have the texts they had.
-/

namespace DseFmi.Generate

open DseFmi.Library

def SignalGroup.isBinary (sg : SignalGroup) : Bool :=
  match sg.metadata with
  | some metadata => metadata.isBinary
  | none => false

def SignalGroup.scalarSignals (sg : SignalGroup) : List Signal :=
  if sg.isBinary then [] else sg.signals

structure GroupPatchable (earlier : List Signal) (sg : SignalGroup) : Prop where
  metadata : sg.metadata.isSome = true
  scalar : ∀ s ∈ heads Signal.signal earlier sg.scalarSignals, CausalityReadable s
  binary : sg.isBinary = true → ∀ s ∈ sg.signals, s.annotations.isSome = true

/-- What the merge reads of the groups, after the scalars of earlier ones. -/
structure GroupsPatchable (earlier : List Signal) (groups : List SignalGroup) : Prop where
  metadata : ∀ sg ∈ groups, sg.metadata.isSome = true
  scalar : ∀ s ∈ heads Signal.signal earlier (groups.flatMap SignalGroup.scalarSignals),
    CausalityReadable s
  binary : ∀ sg ∈ groups, sg.isBinary = true → ∀ s ∈ sg.signals, s.annotations.isSome = true

theorem groupsPatchable_cons_iff {earlier : List Signal} {sg : SignalGroup}
    {groups : List SignalGroup} :
    GroupsPatchable earlier (sg :: groups) ↔
      GroupPatchable earlier sg ∧ GroupsPatchable (earlier ++ sg.scalarSignals) groups := by
  constructor
  · rintro ⟨metadata, scalar, binary⟩
    rw [List.flatMap_cons, heads_append] at scalar
    rw [List.forall_mem_append] at scalar
    rw [List.forall_mem_cons] at metadata binary
    exact ⟨⟨metadata.1, scalar.1, binary.1⟩, ⟨metadata.2, scalar.2, binary.2⟩⟩
  · rintro ⟨first, rest⟩
    refine ⟨?_, ?_, ?_⟩
    · exact List.forall_mem_cons.mpr ⟨first.metadata, rest.metadata⟩
    · rw [List.flatMap_cons, heads_append, List.forall_mem_append]
      exact ⟨first.scalar, rest.scalar⟩
    · exact List.forall_mem_cons.mpr ⟨first.binary, rest.binary⟩

def exportedBus (vr : Nat) (s : Signal) : Signal :=
  { s with annotations := some (exportedBinary vr (s.annotations.getD ∅)) }

theorem patchBinary_ok_iff {vr : Nat} {signals patched : List Signal} :
    patchBinary vr signals = .ok patched ↔
      (∀ s ∈ signals, s.annotations.isSome = true) ∧ patched = signals.map (exportedBus vr) := by
  induction signals generalizing patched with
  | nil =>
      simp only [patchBinary, Except.ok.injEq, List.map_nil, List.not_mem_nil, false_implies,
        implies_true, true_and]
      exact eq_comm
  | cons s signals ih =>
      rw [List.forall_mem_cons, List.map_cons, patchBinary]
      constructor
      · intro ran
        obtain ⟨anns, found, ran⟩ := bind_eq_ok.mp ran
        obtain ⟨rest, later, ran⟩ := bind_eq_ok.mp ran
        cases ran
        obtain ⟨annotated, rfl⟩ := ih.mp later
        have stored := eq_some_of_deref found
        refine ⟨⟨by rw [stored]; rfl, annotated⟩, ?_⟩
        rw [exportedBus, stored, Option.getD_some]
      · rintro ⟨⟨first, annotated⟩, rfl⟩
        obtain ⟨anns, stored⟩ := Option.isSome_iff_exists.mp first
        simp only [stored, deref, ok_bind, ih.mpr ⟨annotated, rfl⟩, pure_eq_ok, exportedBus,
          Option.getD_some]

section Bus

variable {vr : Nat} {s : Signal}

theorem valueOf_exportedBus {k : String} (annotated : s.annotations.isSome = true)
    (other : k ∉ ["fmi_variable_vref", "fmi_variable_vref_input", "fmi_variable_vref_output",
      "dse.standards.fmi-ls-binary-to-text.vref", "dse.standards.fmi-ls-bus-topology.rx_vref",
      "dse.standards.fmi-ls-bus-topology.tx_vref"]) :
    valueOf (exportedBus vr s) k = valueOf s k := by
  obtain ⟨anns, stored⟩ := Option.isSome_iff_exists.mp annotated
  simp only [List.mem_cons, List.not_mem_nil, or_false, not_or] at other
  obtain ⟨vref, input, output, text, rx, tx⟩ := other
  rw [valueOf_eq stored, exportedBus, stored, Option.getD_some, valueOf_eq rfl, exportedBinary,
    get_insert_ne _ _ tx, get_insert_ne _ _ rx, get_insert_ne _ _ text, get_insert_ne _ _ output,
    get_insert_ne _ _ input, get_insert_ne _ _ vref]

theorem valueOf_exportedBus_rx :
    valueOf (exportedBus vr s) "dse.standards.fmi-ls-bus-topology.rx_vref" = some (.ints [vr]) := by
  rw [valueOf_eq rfl, exportedBinary, get_insert_ne _ _ (by decide), get_insert_self _ _ (by simp)]

theorem valueOf_exportedBus_tx :
    valueOf (exportedBus vr s) "dse.standards.fmi-ls-bus-topology.tx_vref" =
      some (.ints [(vr : Int) + 1]) := by
  rw [valueOf_eq rfl, exportedBinary, get_insert_self _ _ (by simp)]

theorem busExported_exportedBus :
    busExported (exportedBus vr s) = some (busVariables
      (numberOf (valueOf (exportedBus vr s) "dse.standards.fmi-ls-bus-topology.bus_id")) 1
      [((vr : Int), (vr : Int) + 1)]) := by
  rw [busExported, vrefsOf, vrefsOf, valueOf_exportedBus_rx, valueOf_exportedBus_tx]
  rfl

theorem busDescribed_exportedBus_iff (annotated : s.annotations.isSome = true) :
    BusDescribed (exportedBus vr s) ↔ BusDescribed s := by
  have busId := @valueOf_exportedBus vr s "dse.standards.fmi-ls-bus-topology.bus_id"
    annotated (by decide)
  have mimeType := @valueOf_exportedBus vr s "mime_type" annotated (by decide)
  have encoding := @valueOf_exportedBus vr s "dse.standards.fmi-ls-binary-to-text.encoding"
    annotated (by decide)
  have start := @valueOf_exportedBus vr s "fmi_variable_start_value"
    annotated (by decide)
  constructor
  · rintro ⟨first, second, third, fourth⟩
    rw [busId] at first
    rw [mimeType] at second
    rw [encoding] at third
    rw [start] at fourth
    exact ⟨first, second, third, fourth⟩
  · rintro ⟨first, second, third, fourth⟩
    refine ⟨?_, ?_, ?_, ?_⟩
    · rwa [busId]
    · rwa [mimeType]
    · rwa [encoding]
    · rwa [start]

theorem busReadable_exportedBus_iff (annotated : s.annotations.isSome = true) :
    BusReadable (exportedBus vr s) ↔ BusDescribed s := by
  rw [← @busDescribed_exportedBus_iff vr _ annotated]
  constructor
  · intro readable
    apply readable.described
    rw [busExported_exportedBus]
    exact busVariables_ne_nil (List.cons_ne_nil _ _)
  · intro described
    refine ⟨rfl, ?_, ?_, fun _ => described⟩
    · intro items listed
      rw [valueOf_exportedBus_rx] at listed
      cases listed
    · intro _ items listed
      rw [valueOf_exportedBus_tx] at listed
      cases listed

end Bus

/-- A merged group: its scalars can be read, its buses have the texts they had. -/
structure Merges (sg merged : SignalGroup) : Prop where
  described : ∃ metadata labels, sg.metadata = some metadata ∧
    merged.metadata = some { metadata with labels }
  scalar : sg.isBinary = false → ∀ s ∈ merged.signals, ScalarReadable s
  binary : sg.isBinary = true → (∀ s ∈ sg.signals, s.annotations.isSome = true) ∧
    ∃ vr, merged.signals = sg.signals.map (exportedBus vr)

theorem scalarReadable_numbered {vr : Nat} {signals : List Signal} :
    ∀ s ∈ numbered vr signals, ScalarReadable s := by
  induction signals generalizing vr with
  | nil => simp [numbered]
  | cons s signals ih =>
      rw [numbered, List.forall_mem_cons]
      refine ⟨⟨?_, .inl ?_, .inr ?_⟩, ih⟩
      · rw [valueOf_eq rfl, exportedScalar, get_insert_self _ _ (by simp)]
        rfl
      · rw [valueOf_eq rfl, exportedScalar, get_insert_ne _ _ (by decide),
          get_insert_ne _ _ (by decide), get_insert_ne _ _ (by decide),
          get_insert_ne _ _ (by decide)]
        rfl
      · rw [valueOf_eq rfl, exportedScalar, get_insert_ne _ _ (by decide),
          get_insert_self _ _ (by simp)]
        rfl

section Merge

variable {name : String} {state : PatchState} {earlier : List Signal} {sg : SignalGroup}
  {groups : List SignalGroup}

theorem isBinary_eq {metadata : ObjectMetadata} (stored : sg.metadata = some metadata) :
    sg.isBinary = metadata.isBinary := by
  rw [SignalGroup.isBinary, stored]

theorem metadata_of_patchGroup {metadata : ObjectMetadata} (stored : sg.metadata = some metadata)
    {after : PatchState} {merged : SignalGroup}
    (ran : patchGroup name state sg = .ok (after, merged)) :
    ∃ labels, merged.metadata = some { metadata with labels } := by
  obtain ⟨other, found, ran⟩ := bind_eq_ok.mp ran
  cases stored.symm.trans (eq_some_of_deref found)
  obtain ⟨patched, _, ran⟩ := bind_eq_ok.mp ran
  obtain ⟨_, rfl⟩ := Prod.mk.inj (Except.ok.inj ran)
  exact ⟨_, rfl⟩

/-- A group that can be read is merged, and its scalars are known after it. -/
theorem patchGroup_merges (known : Known state.usedSignals earlier)
    (patchable : GroupPatchable earlier sg) :
    ∃ after merged, patchGroup name state sg = .ok (after, merged) ∧ Merges sg merged ∧
      Known after.usedSignals (earlier ++ sg.scalarSignals) := by
  obtain ⟨metadata, stored⟩ := Option.isSome_iff_exists.mp patchable.metadata
  cases kind : sg.isBinary with
  | false =>
      have scalar : ScalarGroup sg := by
        intro other again
        rwa [← isBinary_eq again]
      have signals : sg.scalarSignals = sg.signals := by
        rw [SignalGroup.scalarSignals, kind]
        rfl
      have readable := patchable.scalar
      rw [signals] at readable ⊢
      obtain ⟨used, merged, ran, written, later⟩ := @patchGroup_readable name _ _ _ scalar known
        patchable.metadata readable
      refine ⟨_, merged, ran, ⟨?_, ?_, ?_⟩, later⟩
      · obtain ⟨labels, same⟩ := metadata_of_patchGroup stored ran
        exact ⟨metadata, labels, stored, same⟩
      · intro _
        rw [written]
        exact scalarReadable_numbered
      · intro binary
        rw [kind] at binary
        cases binary
  | true =>
      have signals : sg.scalarSignals = [] := by
        rw [SignalGroup.scalarSignals, kind]
        rfl
      have annotated := patchable.binary kind
      have patched := (@patchBinary_ok_iff state.vr _ _).mpr ⟨annotated, rfl⟩
      rw [signals, List.append_nil, patchGroup, stored]
      simp only [deref, ok_bind, ← isBinary_eq stored, kind, if_true, patchSignal, patched]
      refine ⟨_, _, rfl, ⟨⟨metadata, _, stored, rfl⟩, ?_, ?_⟩, known⟩
      · intro scalar
        rw [kind] at scalar
        cases scalar
      · intro _
        exact ⟨annotated, state.vr, rfl⟩

theorem groupPatchable_of_patchGroup (known : Known state.usedSignals earlier)
    {result : PatchState × SignalGroup} (ran : patchGroup name state sg = .ok result) :
    GroupPatchable earlier sg := by
  obtain ⟨metadata, found, later⟩ := bind_eq_ok.mp ran
  have stored := eq_some_of_deref found
  have described : sg.metadata.isSome = true := by
    rw [stored]
    rfl
  cases kind : sg.isBinary with
  | false =>
      have scalar : ScalarGroup sg := by
        intro other again
        rwa [← isBinary_eq again]
      refine ⟨described, ?_, ?_⟩
      · rw [SignalGroup.scalarSignals, kind]
        exact (readable_of_patchGroup scalar known ran).2
      · intro binary
        rw [kind] at binary
        cases binary
  | true =>
      refine ⟨described, ?_, fun _ => ?_⟩
      · rw [SignalGroup.scalarSignals, kind]
        simp [heads, firsts]
      · obtain ⟨patched, patch, _⟩ := bind_eq_ok.mp later
        rw [← isBinary_eq stored, kind, if_pos rfl, patchSignal, if_pos rfl] at patch
        obtain ⟨signals, patch, _⟩ := bind_eq_ok.mp patch
        exact (patchBinary_ok_iff.mp patch).1

/-- The merge of files that are read does not panic when the groups can be read. -/
theorem patchGroups_noPanic_iff (known : Known state.usedSignals earlier) :
    Run.NoPanic (patchGroups name state (groups.map .ok)) ↔ GroupsPatchable earlier groups := by
  induction groups generalizing state earlier with
  | nil =>
      refine ⟨fun _ => ⟨?_, ?_, ?_⟩, fun _ => Run.noPanic_ok _⟩
      · simp
      · simp [heads, firsts]
      · simp
  | cons sg groups ih =>
      rw [List.map_cons, patchGroups, groupsPatchable_cons_iff]
      simp only [Run.ofResult, ok_bind]
      rw [Run.noPanic_bind_iff, Run.noPanic_ofGo_iff]
      constructor
      · rintro ⟨⟨result, ran⟩, later⟩
        have patchable := groupPatchable_of_patchGroup known ran
        obtain ⟨after, merged, again, _, known⟩ := @patchGroup_merges name _ _ _ known patchable
        have rest := later (after, merged) (ofGo_eq_ok.mpr again)
        rw [Run.noPanic_bind_iff] at rest
        exact ⟨patchable, (ih known).mp rest.1⟩
      · rintro ⟨patchable, rest⟩
        obtain ⟨after, merged, again, _, known⟩ := @patchGroup_merges name _ _ _ known patchable
        refine ⟨⟨_, again⟩, ?_⟩
        intro result ran
        cases again.symm.trans (ofGo_eq_ok.mp ran)
        apply Run.noPanic_bind_iff.mpr
        exact ⟨(ih known).mpr rest, fun _ _ => Run.noPanic_ok _⟩

theorem patchGroups_merges (known : Known state.usedSignals earlier)
    (patchable : GroupsPatchable earlier groups) :
    ∃ after merged, patchGroups name state (groups.map .ok) = .ok (after, merged) ∧
      List.Forall₂ Merges groups merged := by
  induction groups generalizing state earlier with
  | nil => exact ⟨state, [], rfl, .nil⟩
  | cons sg groups ih =>
      obtain ⟨first, rest⟩ := groupsPatchable_cons_iff.mp patchable
      obtain ⟨after, merged, here, merges, known⟩ := @patchGroup_merges name _ _ _ known first
      obtain ⟨last, more, later, all⟩ := ih known rest
      refine ⟨last, merged :: more, ?_, .cons merges all⟩
      rw [List.map_cons, patchGroups]
      simp only [Run.ofResult, ok_bind, here, Run.ofGo, later]
      rfl

end Merge

end DseFmi.Generate
