import DseFmi.Generate.Collection
import DseFmi.Library.FirstOccurrence

/-!
# Merged scalar groups

A name is exported once, however many groups have it. The generator decides at the first
signal of a name whether it is local, and never looks at a later one.
-/

namespace DseFmi.Generate

open DseFmi.Library

/-- The effective causality: that of the variable, else the direction, else the direction
of the software ECU. -/
def annotatedCausality (anns : Annotations) : Value :=
  match anns.get "fmi_variable_causality" with
  | some causality => causality
  | none =>
      match anns.get "direction" with
      | some direction => direction
      | none => .string (match anns.get "softecu_direction" with
          | some (.string "M2E") => "input"
          | some (.string "E2M") => "output"
          | _ => "")

def signalCausality (s : Signal) : Value := annotatedCausality (s.annotations.getD ∅)

def isNonLocal (s : Signal) : Bool :=
  match signalCausality s with
  | .string causality => causality ≠ "local"
  | _ => true

def causalityText (s : Signal) : String :=
  match signalCausality s with
  | .string causality => causality
  | _ => ""

def numbered : Nat → List Signal → List Signal
  | _, [] => []
  | vr, s :: signals =>
      { s with annotations := some (exportedScalar vr (causalityText s) "real" s.signal) } ::
        numbered (vr + 1) signals

/-- Each non-local name at its first non-local signal, in the group of that signal. -/
def exportedGroups : List Signal → Nat → List (List Signal) → List (List Signal)
  | _, _, [] => []
  | earlier, vr, signals :: groups =>
      let exported := firsts Signal.signal isNonLocal earlier signals
      numbered vr exported :: exportedGroups (earlier ++ signals) (vr + exported.length) groups

structure ExportsNonLocal (c d : Gateway) (groups : List SignalGroup) : Prop where
  signals : d.signalGroupFile.map SignalGroup.signals =
    exportedGroups [] c.signalIdx (groups.map SignalGroup.signals)
  counter : d.signalIdx = c.signalIdx +
    (firsts Signal.signal isNonLocal [] (groups.flatMap SignalGroup.signals)).length

@[simp] theorem length_numbered (vr : Nat) (signals : List Signal) :
    (numbered vr signals).length = signals.length := by
  induction signals generalizing vr with
  | nil => rfl
  | cons s signals ih => simp [numbered, ih]

theorem map_signal_numbered (vr : Nat) (signals : List Signal) :
    (numbered vr signals).map Signal.signal = signals.map Signal.signal := by
  induction signals generalizing vr with
  | nil => rfl
  | cons s signals ih => simp [numbered, ih]

theorem numbered_append (vr : Nat) (signals more : List Signal) :
    numbered vr (signals ++ more) = numbered vr signals ++ numbered (vr + signals.length) more := by
  induction signals generalizing vr with
  | nil => simp [numbered]
  | cons s signals ih =>
      simp only [List.cons_append, numbered, ih, List.length_cons]
      rw [Nat.add_right_comm, Nat.add_assoc]

/-- Over all groups, the references are consecutive in the order of the signals. -/
theorem exportedGroups_flatten (earlier : List Signal) (vr : Nat) (groups : List (List Signal)) :
    (exportedGroups earlier vr groups).flatten =
      numbered vr (firsts Signal.signal isNonLocal earlier groups.flatten) := by
  induction groups generalizing earlier vr with
  | nil => rfl
  | cons signals groups ih =>
      simp only [exportedGroups, List.flatten_cons, ih, firsts_append, numbered_append]

section Exported

variable {c d : Gateway} {groups : List SignalGroup} (exports : ExportsNonLocal c d groups)

include exports

theorem ExportsNonLocal.signals_eq :
    d.signalGroupFile.flatMap SignalGroup.signals = numbered c.signalIdx
      (firsts Signal.signal isNonLocal [] (groups.flatMap SignalGroup.signals)) := by
  rw [List.flatMap_def, exports.signals, exportedGroups_flatten, ← List.flatMap_def]

theorem ExportsNonLocal.names :
    ((d.signalGroupFile.flatMap SignalGroup.signals).map Signal.signal).Nodup ∧
      ∀ name, name ∈ (d.signalGroupFile.flatMap SignalGroup.signals).map Signal.signal ↔
        ∃ sg ∈ groups, ∃ s ∈ sg.signals, s.signal = name ∧ isNonLocal s = true := by
  rw [exports.signals_eq, map_signal_numbered]
  refine ⟨firsts_keys_nodup, fun name => ?_⟩
  constructor
  · intro member
    obtain ⟨s, found, rfl⟩ := List.mem_map.mp member
    obtain ⟨there, passes, _⟩ := mem_firsts found
    obtain ⟨sg, listed, found⟩ := List.mem_flatMap.mp there
    exact ⟨sg, listed, s, found, rfl, passes⟩
  · rintro ⟨sg, listed, s, found, rfl, passes⟩
    obtain ⟨t, first, same⟩ := @exists_mem_firsts _ _ _ Signal.signal _ [] _ _
      (List.mem_flatMap.mpr ⟨sg, listed, found⟩) passes (fun y before => by cases before)
    exact List.mem_map.mpr ⟨t, first, same⟩

end Exported

def isStringOrNone : Option Value → Bool
  | none => true
  | some (.string _) => true
  | some _ => false

/-- Annotations are there, and the two causalities are strings if they are given. -/
def CausalityReadable (s : Signal) : Prop :=
  ∃ anns, s.annotations = some anns ∧ isStringOrNone (anns.get "direction") = true ∧
    isStringOrNone (anns.get "fmi_variable_causality") = true

theorem effectiveCausality_ok_iff {anns : Annotations} {causality : String} :
    effectiveCausality anns = .ok causality ↔
      isStringOrNone (anns.get "direction") = true ∧
        isStringOrNone (anns.get "fmi_variable_causality") = true ∧
        annotatedCausality anns = .string causality := by
  unfold effectiveCausality annotatedCausality
  cases anns.get "direction" with
  | none =>
      cases anns.get "fmi_variable_causality" with
      | none =>
          constructor
          · intro read
            exact ⟨rfl, rfl, congrArg Value.string (pure_eq_ok.mp read)⟩
          · rintro ⟨_, _, text⟩
            exact congrArg Except.ok (Value.string.inj text)
      | some value => cases value <;> simp [isStringOrNone, Value.asString]
  | some direction =>
      cases anns.get "fmi_variable_causality" with
      | none => cases direction <;> simp [isStringOrNone, Value.asString]
      | some value =>
          cases direction <;> cases value <;> simp [isStringOrNone, Value.asString]

theorem effectiveCausality_readable {anns : Annotations}
    (direction : isStringOrNone (anns.get "direction") = true)
    (given : isStringOrNone (anns.get "fmi_variable_causality") = true) :
    ∃ causality, effectiveCausality anns = .ok causality := by
  have text : ∃ causality, annotatedCausality anns = .string causality := by
    unfold annotatedCausality
    cases value : anns.get "fmi_variable_causality" with
    | none =>
        cases other : anns.get "direction" with
        | none => exact ⟨_, rfl⟩
        | some v =>
            rw [other] at direction
            cases v <;> first | exact ⟨_, rfl⟩ | cases direction
    | some v =>
        rw [value] at given
        cases v <;> first | exact ⟨_, rfl⟩ | cases given
  obtain ⟨causality, text⟩ := text
  exact ⟨causality, effectiveCausality_ok_iff.mpr ⟨direction, given, text⟩⟩

/-- The names met so far are those of the earlier signals. -/
def Known (usedSignals : List String) (earlier : List Signal) : Prop :=
  ∀ name, name ∈ usedSignals ↔ ∃ s ∈ earlier, s.signal = name

theorem Known.append {usedSignals : List String} {earlier : List Signal}
    (known : Known usedSignals earlier) (s : Signal) :
    Known (usedSignals ++ [s.signal]) (earlier ++ [s]) := by
  intro name
  simp only [List.mem_append, List.mem_singleton, known name]
  constructor
  · rintro (⟨t, before, same⟩ | rfl)
    · exact ⟨t, .inl before, same⟩
    · exact ⟨s, .inr rfl, rfl⟩
  · rintro ⟨t, before | rfl, same⟩
    · exact .inl ⟨t, before, same⟩
    · exact .inr same.symm

theorem Known.append_used {usedSignals : List String} {earlier : List Signal}
    (known : Known usedSignals earlier) {s : Signal} (used : s.signal ∈ usedSignals) :
    Known usedSignals (earlier ++ [s]) := by
  intro name
  rw [known name]
  obtain ⟨t, there, also⟩ := (known s.signal).mp used
  constructor
  · rintro ⟨u, before, same⟩
    exact ⟨u, List.mem_append_left _ before, same⟩
  · rintro ⟨u, before, same⟩
    rcases List.mem_append.mp before with before | last
    · exact ⟨u, before, same⟩
    · rw [List.mem_singleton.mp last] at same
      exact ⟨t, there, also.trans same⟩

def generatedExports (earlier signals : List Signal) : List Signal :=
  (heads Signal.signal earlier signals).filter isNonLocal

section Patch

variable {vr : Nat} {usedSignals : List String} {earlier signals : List Signal}

theorem patchScalars_readable (known : Known usedSignals earlier)
    (readable : ∀ s ∈ heads Signal.signal earlier signals, CausalityReadable s) :
    ∃ used, patchScalars "real" ⟨vr, usedSignals⟩ signals =
        .ok (⟨vr + (generatedExports earlier signals).length, used⟩,
          numbered vr (generatedExports earlier signals)) ∧
      Known used (earlier ++ signals) := by
  unfold generatedExports
  induction signals generalizing vr usedSignals earlier with
  | nil =>
      refine ⟨usedSignals, ?_, by simpa using known⟩
      simp [patchScalars, heads, firsts, numbered]
  | cons s signals ih =>
      by_cases used : s.signal ∈ usedSignals
      · rw [heads_cons_of_known ((known s.signal).mp used)] at readable ⊢
        obtain ⟨names, ran, later⟩ := @ih vr _ _ (known.append_used used) readable
        refine ⟨names, ?_, by simpa using later⟩
        rw [patchScalars, if_pos used]
        exact ran
      · have new := fun there => used ((known s.signal).mpr there)
        rw [heads_cons_of_new new] at readable ⊢
        obtain ⟨anns, stored, direction, given⟩ := readable s List.mem_cons_self
        have rest := fun t member => readable t (List.mem_cons_of_mem _ member)
        have next := known.append s
        have value : signalCausality s = annotatedCausality anns := by
          rw [signalCausality, stored, Option.getD_some]
        obtain ⟨causality, read⟩ := effectiveCausality_readable direction given
        have text := (effectiveCausality_ok_iff.mp read).2.2
        rw [patchScalars, if_neg used, stored]
        simp only [deref, ok_bind, read]
        by_cases kept : causality = "local"
        · have not_exported : ¬ isNonLocal s = true := by
            simp [isNonLocal, value, text, kept]
          rw [if_pos kept, List.filter_cons_of_neg not_exported]
          obtain ⟨names, ran, later⟩ := @ih vr _ _ next rest
          exact ⟨names, ran, by simpa using later⟩
        · have exported : isNonLocal s = true := by
            simp [isNonLocal, value, text, kept]
          have written : causalityText s = causality := by
            simp [causalityText, value, text]
          rw [if_neg kept, List.filter_cons_of_pos exported]
          obtain ⟨names, ran, later⟩ := @ih (vr + 1) _ _ next rest
          refine ⟨names, ?_, by simpa using later⟩
          rw [ran, numbered, written, List.length_cons, ← Nat.add_assoc, Nat.add_right_comm]
          rfl

theorem readable_of_patchScalars (known : Known usedSignals earlier)
    {result : PatchState × List Signal}
    (ran : patchScalars "real" ⟨vr, usedSignals⟩ signals = .ok result) :
    ∀ s ∈ heads Signal.signal earlier signals, CausalityReadable s := by
  induction signals generalizing vr usedSignals earlier result with
  | nil =>
      intro s member
      simp [heads, firsts] at member
  | cons s signals ih =>
      rw [patchScalars] at ran
      by_cases used : s.signal ∈ usedSignals
      · rw [if_pos used] at ran
        rw [heads_cons_of_known ((known s.signal).mp used)]
        exact ih (known.append_used used) ran
      · rw [if_neg used] at ran
        obtain ⟨anns, stored, ran⟩ := bind_eq_ok.mp ran
        obtain ⟨causality, read, ran⟩ := bind_eq_ok.mp ran
        obtain ⟨direction, given, _⟩ := effectiveCausality_ok_iff.mp read
        have here : CausalityReadable s := ⟨anns, eq_some_of_deref stored, direction, given⟩
        have later : ∀ t ∈ heads Signal.signal (earlier ++ [s]) signals, CausalityReadable t := by
          split at ran
          · exact ih (known.append s) ran
          · obtain ⟨rest, ran, _⟩ := bind_eq_ok.mp ran
            exact ih (known.append s) ran
        rw [heads_cons_of_new fun there => used ((known s.signal).mpr there)]
        intro t member
        rcases List.mem_cons.mp member with rfl | member
        · exact here
        · exact later t member

end Patch

def ScalarGroup (sg : SignalGroup) : Prop :=
  ∀ metadata, sg.metadata = some metadata → metadata.isBinary = false

def generatedGroups : List Signal → Nat → List (List Signal) → List (List Signal)
  | _, _, [] => []
  | earlier, vr, signals :: groups =>
      let exported := generatedExports earlier signals
      numbered vr exported :: generatedGroups (earlier ++ signals) (vr + exported.length) groups

theorem generatedExports_append (earlier signals more : List Signal) :
    generatedExports earlier (signals ++ more) =
      generatedExports earlier signals ++ generatedExports (earlier ++ signals) more := by
  rw [generatedExports, heads_append, List.filter_append]
  rfl

/-- All groups have metadata, and all signals that are looked at can be read. -/
structure GroupsReadable (earlier : List Signal) (groups : List SignalGroup) : Prop where
  metadata : ∀ sg ∈ groups, sg.metadata.isSome = true
  signals : ∀ s ∈ heads Signal.signal earlier (groups.flatMap SignalGroup.signals),
    CausalityReadable s

section Groups

variable {name : String} {state : PatchState} {earlier : List Signal} {sg : SignalGroup}
  {groups : List SignalGroup}

theorem patchGroup_readable (scalar : ScalarGroup sg) (known : Known state.usedSignals earlier)
    (described : sg.metadata.isSome = true)
    (readable : ∀ s ∈ heads Signal.signal earlier sg.signals, CausalityReadable s) :
    ∃ used patched, patchGroup name state sg =
        .ok (⟨state.vr + (generatedExports earlier sg.signals).length, used⟩, patched) ∧
      patched.signals = numbered state.vr (generatedExports earlier sg.signals) ∧
      Known used (earlier ++ sg.signals) := by
  obtain ⟨metadata, stored⟩ := Option.isSome_iff_exists.mp described
  obtain ⟨used, ran, later⟩ := @patchScalars_readable state.vr _ _ _ known readable
  refine ⟨used,
    { metadata := some { metadata with
        labels := some ((metadata.labels.getD ∅).insert "model" name) }
      signals := numbered state.vr (generatedExports earlier sg.signals) }, ?_, rfl, later⟩
  rw [patchGroup, stored]
  simp only [deref, ok_bind, scalar metadata stored, Bool.false_eq_true, if_false, patchSignal]
  rw [if_neg (by decide), ran]
  rfl

theorem readable_of_patchGroup (scalar : ScalarGroup sg) (known : Known state.usedSignals earlier)
    {result : PatchState × SignalGroup} (ran : patchGroup name state sg = .ok result) :
    sg.metadata.isSome = true ∧
      ∀ s ∈ heads Signal.signal earlier sg.signals, CausalityReadable s := by
  obtain ⟨metadata, stored, ran⟩ := bind_eq_ok.mp ran
  have stored := eq_some_of_deref stored
  obtain ⟨patched, patch, _⟩ := bind_eq_ok.mp ran
  rw [scalar metadata stored, patchSignal, if_neg (by decide)] at patch
  exact ⟨by rw [stored]; rfl, readable_of_patchScalars known patch⟩

theorem patchGroups_readable (scalar : ∀ sg ∈ groups, ScalarGroup sg)
    (known : Known state.usedSignals earlier) (readable : GroupsReadable earlier groups) :
    ∃ used patched, patchGroups name state (groups.map .ok) =
        .ok (⟨state.vr +
          (generatedExports earlier (groups.flatMap SignalGroup.signals)).length, used⟩, patched) ∧
      patched.map SignalGroup.signals =
        generatedGroups earlier state.vr (groups.map SignalGroup.signals) := by
  induction groups generalizing state earlier with
  | nil => exact ⟨state.usedSignals, [], rfl, rfl⟩
  | cons sg groups ih =>
      have signals := readable.signals
      rw [List.flatMap_cons, heads_append] at signals
      obtain ⟨used, patched, first, written, known⟩ := @patchGroup_readable name _ _ _
        (scalar sg List.mem_cons_self) known (readable.metadata sg List.mem_cons_self)
        fun s member => signals s (List.mem_append_left _ member)
      have rest : GroupsReadable (earlier ++ sg.signals) groups :=
        ⟨fun other later => readable.metadata other (List.mem_cons_of_mem _ later),
          fun s member => signals s (List.mem_append_right _ member)⟩
      obtain ⟨names, more, ran, same⟩ := @ih
        ⟨state.vr + (generatedExports earlier sg.signals).length, used⟩ _
        (fun other later => scalar other (List.mem_cons_of_mem _ later)) known rest
      refine ⟨names, patched :: more, ?_, ?_⟩
      · rw [List.map_cons, patchGroups]
        simp only [Run.ofResult, ok_bind, first, Run.ofGo, ran]
        rw [List.flatMap_cons, generatedExports_append, List.length_append, Nat.add_assoc]
        rfl
      · simp only [List.map_cons, generatedGroups, written, same]

theorem readable_of_patchGroups (scalar : ∀ sg ∈ groups, ScalarGroup sg)
    (known : Known state.usedSignals earlier) {result : PatchState × List SignalGroup}
    (ran : patchGroups name state (groups.map .ok) = .ok result) :
    GroupsReadable earlier groups := by
  induction groups generalizing state earlier result with
  | nil =>
      refine ⟨?_, fun s member => ?_⟩
      · intro sg member
        cases member
      · simp [heads, firsts] at member
  | cons sg groups ih =>
      rw [List.map_cons, patchGroups] at ran
      simp only [Run.ofResult, ok_bind] at ran
      obtain ⟨first, patch, ran⟩ := bind_eq_ok.mp ran
      obtain ⟨more, later, _⟩ := bind_eq_ok.mp ran
      have patch := ofGo_eq_ok.mp patch
      have here := readable_of_patchGroup (scalar sg List.mem_cons_self) known patch
      obtain ⟨used, patched, again, _, known⟩ := @patchGroup_readable name _ _ _
        (scalar sg List.mem_cons_self) known here.1 here.2
      obtain rfl := Except.ok.inj (again.symm.trans patch)
      have rest := ih (fun other there => scalar other (List.mem_cons_of_mem _ there)) known later
      refine ⟨?_, ?_⟩
      · rw [List.forall_mem_cons]
        exact ⟨here.1, rest.metadata⟩
      · rw [List.flatMap_cons, heads_append]
        intro s member
        rcases List.mem_append.mp member with member | member
        · exact here.2 s member
        · exact rest.signals s member

end Groups

theorem length_eq_of_numbered {vr : Nat} {signals others : List Signal}
    (same : numbered vr signals = numbered vr others) : signals.length = others.length := by
  have lengths := congrArg List.length same
  simpa using lengths

/-- The generator exports the signals to export exactly when it loses none. -/
theorem generatedGroups_eq_iff {earlier : List Signal} {vr : Nat} {groups : List (List Signal)} :
    generatedGroups earlier vr groups = exportedGroups earlier vr groups ↔
      generatedExports earlier groups.flatten =
        firsts Signal.signal isNonLocal earlier groups.flatten := by
  induction groups generalizing earlier vr with
  | nil => simp [generatedGroups, exportedGroups, generatedExports, heads, firsts]
  | cons signals groups ih =>
      have first : ∀ earlier signals, (generatedExports earlier signals).Sublist
          (firsts Signal.signal isNonLocal earlier signals) :=
        fun earlier signals => filter_heads_sublist
      rw [List.flatten_cons, generatedExports_append, firsts_append]
      simp only [generatedGroups, exportedGroups]
      constructor
      · intro same
        obtain ⟨here, rest⟩ := List.cons.inj same
        have here := (first earlier signals).eq_of_length (length_eq_of_numbered here)
        rw [here] at rest ⊢
        rw [ih.mp rest]
      · intro same
        have lengths := congrArg List.length same
        simp only [List.length_append] at lengths
        have bound := (first earlier signals).length_le
        have later := (first (earlier ++ signals) groups.flatten).length_le
        have here := (first earlier signals).eq_of_length (by omega)
        have rest := (first (earlier ++ signals) groups.flatten).eq_of_length (by omega)
        rw [here, ih.mpr rest]

/-- The merge exports the signals to export exactly when it can read what it looks at and
no name is local at its first signal and non-local at a later one. -/
theorem mergeSignalGroups_exports_iff (c : Gateway) (name : String) (groups : List SignalGroup)
    (scalar : ∀ sg ∈ groups, ScalarGroup sg) :
    (∃ d, c.mergeSignalGroups name (groups.map .ok) = .ok d ∧ ExportsNonLocal c d groups) ↔
      GroupsReadable [] groups ∧
        DecidedByFirst Signal.signal isNonLocal [] (groups.flatMap SignalGroup.signals) := by
  have known : Known [] [] := fun name => by simp
  have flat : (groups.map SignalGroup.signals).flatten = groups.flatMap SignalGroup.signals :=
    List.flatMap_def.symm
  rw [← filter_heads_eq_iff]
  constructor
  · rintro ⟨d, ran, exports⟩
    obtain ⟨⟨state, merged⟩, patch, same⟩ := bind_eq_ok.mp ran
    cases same
    have readable := @readable_of_patchGroups _ ⟨c.signalIdx, []⟩ _ _ scalar known _ patch
    obtain ⟨used, patched, again, signals⟩ :=
      @patchGroups_readable name ⟨c.signalIdx, []⟩ _ _ scalar known readable
    obtain rfl := congrArg Prod.snd (Except.ok.inj (again.symm.trans patch))
    refine ⟨readable, ?_⟩
    rw [← flat]
    exact generatedGroups_eq_iff.mp (signals.symm.trans exports.signals)
  · rintro ⟨readable, lossless⟩
    obtain ⟨used, patched, ran, signals⟩ :=
      @patchGroups_readable name ⟨c.signalIdx, []⟩ _ _ scalar known readable
    refine ⟨_, by rw [Gateway.mergeSignalGroups, ran]; rfl, ?_, ?_⟩
    · rw [← flat] at lossless
      exact signals.trans (generatedGroups_eq_iff.mpr lossless)
    · rw [← lossless]
      rfl

def causalitySignal (name causality : String) : Signal :=
  ⟨name, some ((∅ : Annotations).insert "fmi_variable_causality" (.string causality))⟩

def scalarsOf (signals : List Signal) : SignalGroup := ⟨some ⟨none, none, none⟩, signals⟩

theorem scalarGroup_scalarsOf (signals : List Signal) : ScalarGroup (scalarsOf signals) := by
  intro metadata stored
  obtain rfl := Option.some.inj stored
  rfl

theorem causalityReadable_causalitySignal (name causality : String) :
    CausalityReadable (causalitySignal name causality) := by
  refine ⟨_, rfl, ?_, ?_⟩
  · rw [get_insert_ne _ _ (by decide)]
    rfl
  · rw [get_insert_self _ _ (by simp)]
    rfl

/-- A name that two groups export, and one that is local. -/
theorem mergeSignalGroups_twice :
    ∃ d, newFmiGatewayCommand.mergeSignalGroups "gateway"
        ([scalarsOf [causalitySignal "x" "input", causalitySignal "y" "local"],
          scalarsOf [causalitySignal "x" "output"]].map .ok) = .ok d ∧
      ExportsNonLocal newFmiGatewayCommand d
        [scalarsOf [causalitySignal "x" "input", causalitySignal "y" "local"],
          scalarsOf [causalitySignal "x" "output"]] := by
  refine (mergeSignalGroups_exports_iff newFmiGatewayCommand "gateway" _ ?_).mpr ⟨⟨?_, ?_⟩, ?_⟩
  · intro sg member
    simp only [List.mem_cons, List.not_mem_nil, or_false] at member
    rcases member with rfl | rfl <;> exact scalarGroup_scalarsOf _
  · intro sg member
    simp only [List.mem_cons, List.not_mem_nil, or_false] at member
    rcases member with rfl | rfl <;> rfl
  · intro s member
    have looked : s ∈ [causalitySignal "x" "input", causalitySignal "y" "local"] := member
    simp only [List.mem_cons, List.not_mem_nil, or_false] at looked
    rcases looked with rfl | rfl <;> exact causalityReadable_causalitySignal _ _
  · exact filter_heads_eq_iff.mp rfl

/-- A name that is local in the first group is not exported for the second one. -/
theorem mergeSignalGroups_localFirst :
    ¬ ∃ d, newFmiGatewayCommand.mergeSignalGroups "gateway"
        ([scalarsOf [causalitySignal "x" "local"],
          scalarsOf [causalitySignal "x" "output"]].map .ok) = .ok d ∧
      ExportsNonLocal newFmiGatewayCommand d
        [scalarsOf [causalitySignal "x" "local"], scalarsOf [causalitySignal "x" "output"]] := by
  rintro ⟨d, ran, exports⟩
  have counted : d.signalIdx = 0 := by
    cases ran
    rfl
  have expected : d.signalIdx = 1 := exports.counter
  omega

end DseFmi.Generate
