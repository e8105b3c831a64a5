import DseFmi.Generate.SignalGroupIndex

/-!
# What the two versions export

The versions read a signal differently. Where both read all of them, each adds the same
variables for a group.
-/

namespace DseFmi.Generate

open DseFmi.Library

def Exports {α : Type} (describe : α → ExportedVariable) (round : Go (Round α)) :
    Option (List ExportedVariable) → Prop
  | none => ∃ error, round = .ok (.stop error)
  | some vars => ∃ added, round = .ok (.add added) ∧ added.map describe = vars

section Loop

variable {α : Type} {describe : α → ExportedVariable} {round : Signal → Go (Round α)}
  {entry : Signal → Option (List ExportedVariable)} {signals : List Signal}

/-- A loop whose rounds export their entries exports what the signals declare. -/
theorem eachSignal_exports
    (exports : ∀ s ∈ lookedAt entry signals, Exports describe (round s) (entry s)) :
    ∃ added error, eachSignal round signals = .ok (added, error) ∧
      added.map describe = declaredBy entry signals := by
  induction signals with
  | nil => exact ⟨[], none, rfl, rfl⟩
  | cons s signals ih =>
      rw [lookedAt] at exports
      rw [eachSignal, declaredBy]
      cases listed : entry s with
      | none =>
          rw [listed] at exports
          have first := exports s (List.mem_singleton.mpr rfl)
          rw [listed] at first
          obtain ⟨error, stopped⟩ := first
          rw [stopped]
          exact ⟨[], some error, rfl, rfl⟩
      | some vars =>
          rw [listed] at exports
          have first := exports s List.mem_cons_self
          rw [listed] at first
          obtain ⟨added, ran, same⟩ := first
          obtain ⟨rest, error, later, all⟩ := ih fun t member =>
            exports t (List.mem_cons_of_mem s member)
          rw [ran, ok_bind, later]
          refine ⟨added ++ rest, error, rfl, ?_⟩
          rw [List.map_append, same, all]

/-- A loop that succeeds has read the signals up to its end. -/
theorem eachSignal_readable {readable : Signal → Prop}
    (reads : ∀ s r, round s = .ok r → readable s)
    (exports : ∀ s, readable s → Exports describe (round s) (entry s))
    {result : List α × Option String} (ran : eachSignal round signals = .ok result) :
    ∀ s ∈ lookedAt entry signals, readable s := by
  induction signals generalizing result with
  | nil => exact fun _ member => absurd member List.not_mem_nil
  | cons s signals ih =>
      obtain ⟨r, first, ran⟩ := bind_eq_ok.mp ran
      have here := reads s r first
      have exported := exports s here
      rw [lookedAt]
      intro t member
      cases listed : entry s with
      | none =>
          rw [listed] at member
          exact List.mem_singleton.mp member ▸ here
      | some vars =>
          rw [listed] at member exported
          obtain ⟨added, added_first, _⟩ := exported
          cases first.symm.trans added_first
          obtain ⟨rest, later, _⟩ := bind_eq_ok.mp ran
          rcases List.mem_cons.mp member with rfl | there
          · exact here
          · exact ih later t there

end Loop

theorem valueOf_eq {s : Signal} {anns : Annotations} (stored : s.annotations = some anns)
    (k : String) : valueOf s k = anns.get k := by
  rw [valueOf, stored, Option.bind_some]

theorem eq_string_of_isString {value : Option Value} (text : isString value = true) :
    ∃ s, value = some (.string s) := by
  unfold isString at text
  split at text
  · exact ⟨_, rfl⟩
  · cases text

theorem eq_int_of_isInt {value : Option Value} (number : isInt value = true) :
    ∃ n, value = some (.int n) := by
  unfold isInt at number
  split at number
  · exact ⟨_, rfl⟩
  · cases number

theorem annotated_of_valueOf {s : Signal} {k : String} {v : Value} (found : valueOf s k = some v) :
    ∃ anns, s.annotations = some anns := by
  obtain ⟨anns, stored, _⟩ := Option.bind_eq_some_iff.mp found
  exact ⟨anns, stored⟩

namespace Fmi2

def ScalarVariable.exported (v : ScalarVariable) : ExportedVariable :=
  ⟨v.name, v.valueReference, v.causality⟩

def exported (md : ModelDescription) : List ExportedVariable :=
  md.scalarVariable.map ScalarVariable.exported

theorem annotationsFromSignal_ok {s : Signal} {anns : Annotations}
    (stored : s.annotations = some anns) : ∃ tools, annotationsFromSignal s = .ok tools := by
  rw [annotationsFromSignal, Signal.annotation_eq stored, ok_bind]
  split <;> exact ⟨_, rfl⟩

theorem scalarRound_exports {s : Signal} (readable : ScalarReadable s) :
    Exports ScalarVariable.exported (scalarRound s) (scalarExported s) := by
  obtain ⟨causality, found⟩ := eq_string_of_isString readable.causality
  obtain ⟨anns, stored⟩ := annotated_of_valueOf found
  obtain ⟨tools, annotated⟩ := annotationsFromSignal_ok stored
  rw [valueOf_eq stored] at found
  rw [scalarRound, Signal.annotation_eq stored, ok_bind, found, Signal.annotation_eq stored,
    scalarExported, valueOf_eq stored, valueOf_eq stored, found]
  dsimp only
  rw [Value.asString_string, ok_bind, ok_bind, Signal.annotation_eq stored, ok_bind]
  have vref := readable.vref
  rw [valueOf_eq stored] at vref
  rcases vref with absent | number
  · rw [absent]
    exact ⟨_, rfl⟩
  · obtain ⟨n, integer⟩ := eq_int_of_isInt number
    rw [integer]
    dsimp only
    rw [annotated]
    exact ⟨_, rfl, rfl⟩

end Fmi2

namespace Fmi3

def Float.exported (v : Float) : ExportedVariable := ⟨v.name, v.valueReference, v.causality⟩

def Binary.exported (v : Binary) : ExportedVariable := ⟨v.name, v.valueReference, v.causality⟩

def exported (md : ModelDescription) : List ExportedVariable :=
  md.float64.map Float.exported ++ md.string.map Binary.exported ++ md.binary.map Binary.exported

theorem annotationsFromSignal_ok {s : Signal} {anns : Annotations}
    (stored : s.annotations = some anns) : ∃ items, annotationsFromSignal s = .ok items := by
  rw [annotationsFromSignal, Signal.annotation_eq stored, ok_bind]
  split <;> exact ⟨_, rfl⟩

theorem scalarRound_exports {s : Signal} (readable : ScalarReadable s) :
    Exports Float.exported (scalarRound s) (scalarExported s) := by
  obtain ⟨causality, found⟩ := eq_string_of_isString readable.causality
  obtain ⟨anns, stored⟩ := annotated_of_valueOf found
  obtain ⟨items, annotated⟩ := annotationsFromSignal_ok stored
  have start : ∃ text, scalarStart causality (anns.get "fmi_variable_start_value") = .ok text := by
    have given := readable.start
    rw [valueOf_eq stored] at given
    rcases given with absent | number
    · rw [absent]
      exact ⟨_, rfl⟩
    · obtain ⟨n, integer⟩ := eq_int_of_isInt number
      rw [integer]
      exact ⟨_, rfl⟩
  obtain ⟨text, started⟩ := start
  rw [valueOf_eq stored] at found
  rw [scalarRound, Signal.stringAnnotation, Signal.annotation_eq stored, ok_bind, found,
    Value.asString_string, ok_bind, Signal.annotation_eq stored, ok_bind, started, ok_bind,
    Signal.annotation_eq stored, ok_bind, scalarExported, valueOf_eq stored, valueOf_eq stored,
    found]
  have vref := readable.vref
  rw [valueOf_eq stored] at vref
  rcases vref with absent | number
  · rw [absent]
    exact ⟨_, rfl⟩
  · obtain ⟨n, integer⟩ := eq_int_of_isInt number
    rw [integer]
    dsimp only
    rw [Value.asInt_int, ok_bind, annotated]
    exact ⟨_, rfl, rfl⟩

theorem scalarRound_readable {s : Signal} {round : Round Float} (ran : scalarRound s = .ok round) :
    ScalarReadable s := by
  obtain ⟨causality, text, ran⟩ := bind_eq_ok.mp ran
  obtain ⟨value, hvalue, text⟩ := bind_eq_ok.mp text
  obtain ⟨start, hstart, ran⟩ := bind_eq_ok.mp ran
  obtain ⟨started, converted, ran⟩ := bind_eq_ok.mp ran
  obtain ⟨vref, hvref, ran⟩ := bind_eq_ok.mp ran
  refine ⟨?_, ?_, ?_⟩
  · rw [annotation_eq_ok hvalue, asString_eq_ok text]
    rfl
  · rw [annotation_eq_ok hstart]
    cases start with
    | none => exact .inl rfl
    | some start =>
        obtain ⟨n, number, _⟩ := bind_eq_ok.mp converted
        rw [asInt_eq_ok number]
        exact .inr rfl
  · rw [annotation_eq_ok hvref]
    cases vref with
    | none => exact .inl rfl
    | some vref =>
        obtain ⟨n, number, _⟩ := bind_eq_ok.mp ran
        rw [asInt_eq_ok number]
        exact .inr rfl

end Fmi3

theorem busVrefs_ok {s : Signal} {anns : Annotations} (stored : s.annotations = some anns)
    {k : String} (readable : VrefsReadable s k) : busVrefs s k = .ok (vrefsOf s k) := by
  have found : ∃ vrefs, busVrefs s k = .ok vrefs := by
    rw [VrefsReadable, valueOf_eq stored] at readable
    rw [busVrefs, Signal.annotation_eq stored, ok_bind]
    cases value : anns.get k with
    | none => exact ⟨none, rfl⟩
    | some v =>
        cases v with
        | list items =>
            obtain ⟨ns, slice⟩ :=
              mapM_ok (f := fun item => Value.asInt (some item)) fun item member => by
              obtain ⟨n, integer⟩ := eq_int_of_isInt (readable items value item member)
              exact ⟨n, integer ▸ rfl⟩
            dsimp only
            rw [Value.toIntSlice, slice]
            exact ⟨some ns, rfl⟩
        | ints ns => exact ⟨some ns, rfl⟩
        | _ => exact ⟨none, rfl⟩
  obtain ⟨vrefs, read⟩ := found
  rw [busVrefs_eq_ok read]
  exact read

theorem vrefsReadable_of_busVrefs {s : Signal} {k : String} {vrefs : Option (List Int)}
    (read : busVrefs s k = .ok vrefs) : VrefsReadable s k := by
  obtain ⟨value, hvalue, read⟩ := bind_eq_ok.mp read
  intro items found item member
  rw [annotation_eq_ok hvalue] at found
  rw [found] at read
  obtain ⟨ns, slice, _⟩ := bind_eq_ok.mp read
  obtain ⟨n, integer⟩ := forall_of_mapM_ok slice item member
  rw [asInt_eq_ok integer]
  rfl

structure BusBuilder {α : Type} (build : Signal → Int → String → Nat → Go α)
    (describe : α → ExportedVariable) : Prop where
  builds : ∀ s vref causality id, BusDescribed s → ∃ v, build s vref causality id = .ok v ∧
    describe v =
      ⟨"network_" ++ itoa (numberOf (valueOf s "dse.standards.fmi-ls-bus-topology.bus_id")) ++ "_"
          ++ itoa id ++ "_" ++ causality,
        itoa vref, if causality = "rx" then "input" else "output"⟩
  needs : ∀ s vref causality id v, build s vref causality id = .ok v → BusDescribed s

section Bus

variable {α : Type} {build : Signal → Int → String → Nat → Go α} {describe : α → ExportedVariable}
  {s : Signal}

theorem BusBuilder.buildBinarySignals (builder : BusBuilder build describe) (id : Nat)
    {vrefs : List (Int × Int)} (described : vrefs ≠ [] → BusDescribed s) :
    ∃ vars, buildBinarySignals build s id vrefs = .ok vars ∧ vars.map describe =
      busVariables (numberOf (valueOf s "dse.standards.fmi-ls-bus-topology.bus_id")) id vrefs := by
  induction vrefs generalizing id with
  | nil => exact ⟨[], rfl, rfl⟩
  | cons pair vrefs ih =>
      obtain ⟨rx, tx⟩ := pair
      have texts := described (List.cons_ne_nil _ _)
      obtain ⟨first, hfirst, rxVariable⟩ := builder.builds s rx "rx" id texts
      obtain ⟨second, hsecond, txVariable⟩ := builder.builds s tx "tx" id texts
      obtain ⟨rest, later, all⟩ := ih (id + 1) fun _ => texts
      rw [Generate.buildBinarySignals, hfirst, ok_bind, hsecond, ok_bind, later]
      refine ⟨first :: second :: rest, rfl, ?_⟩
      rw [List.map_cons, List.map_cons, rxVariable, txVariable, all]
      rfl

theorem busVariables_ne_nil {busId : Int} {id : Nat} {vrefs : List (Int × Int)}
    (some : vrefs ≠ []) : busVariables busId id vrefs ≠ [] := by
  cases vrefs with
  | nil => exact absurd rfl some
  | cons pair vrefs => exact List.cons_ne_nil _ _

theorem BusBuilder.busRound_exports (builder : BusBuilder build describe)
    (readable : BusReadable s) : Exports describe (busRound build s) (busExported s) := by
  obtain ⟨anns, stored⟩ := Option.isSome_iff_exists.mp readable.annotated
  have described := readable.described
  have tx_readable := readable.tx
  rw [busExported] at described ⊢
  rw [busRound, busVrefs_ok stored readable.rx, ok_bind]
  cases rx : vrefsOf s "dse.standards.fmi-ls-bus-topology.rx_vref" with
  | none => exact ⟨_, rfl⟩
  | some rxVrefs =>
      rw [rx] at tx_readable described
      dsimp only
      rw [busVrefs_ok stored (tx_readable rfl), ok_bind]
      cases tx : vrefsOf s "dse.standards.fmi-ls-bus-topology.tx_vref" with
      | none => exact ⟨_, rfl⟩
      | some txVrefs =>
          rw [tx] at described
          dsimp only at described ⊢
          by_cases mismatch : rxVrefs.length ≠ txVrefs.length
          · rw [if_pos mismatch, if_pos mismatch]
            exact ⟨_, rfl⟩
          · rw [if_neg mismatch] at described
            rw [if_neg mismatch, if_neg mismatch]
            obtain ⟨vars, built, all⟩ := builder.buildBinarySignals 1
              (fun pairs => described (busVariables_ne_nil pairs))
            rw [built]
            exact ⟨vars, rfl, all⟩

theorem BusBuilder.described_of_built (builder : BusBuilder build describe) {id : Nat}
    {vrefs : List (Int × Int)} {vars : List α}
    (ran : Generate.buildBinarySignals build s id vrefs = .ok vars) (some : vrefs ≠ []) :
    BusDescribed s := by
  cases vrefs with
  | nil => exact absurd rfl some
  | cons pair vrefs =>
      obtain ⟨first, hfirst, _⟩ := bind_eq_ok.mp ran
      exact builder.needs _ _ _ _ _ hfirst

theorem BusBuilder.busRound_readable (builder : BusBuilder build describe) {round : Round α}
    (ran : busRound build s = .ok round) : BusReadable s := by
  obtain ⟨rx, hrx, ran⟩ := bind_eq_ok.mp ran
  have annotated : s.annotations.isSome = true := by
    obtain ⟨_, hvalue, _⟩ := bind_eq_ok.mp hrx
    obtain ⟨anns, stored, _⟩ := bind_eq_ok.mp hvalue
    rw [eq_some_of_deref stored]
    rfl
  refine ⟨annotated, vrefsReadable_of_busVrefs hrx, ?_, ?_⟩
  · intro listed
    rw [busVrefs_eq_ok hrx] at listed
    cases rx with
    | none => cases listed
    | some rx =>
        obtain ⟨tx, htx, _⟩ := bind_eq_ok.mp ran
        exact vrefsReadable_of_busVrefs htx
  · intro exported
    rw [busExported, busVrefs_eq_ok hrx] at exported
    cases rx with
    | none => exact absurd rfl exported
    | some rx =>
        obtain ⟨tx, htx, ran⟩ := bind_eq_ok.mp ran
        rw [busVrefs_eq_ok htx] at exported
        cases tx with
        | none => exact absurd rfl exported
        | some tx =>
            dsimp only at ran exported
            by_cases mismatch : rx.length ≠ tx.length
            · rw [if_pos mismatch] at exported
              exact absurd rfl exported
            · rw [if_neg mismatch] at ran exported
              obtain ⟨vars, built, _⟩ := bind_eq_ok.mp ran
              apply builder.described_of_built built
              intro empty
              rw [empty] at exported
              exact exported rfl

end Bus

theorem binaryStart_ok {value : Option Value} (given : value = none ∨ isString value = true) :
    ∃ text, binaryStart value = .ok text := by
  rcases given with rfl | text
  · exact ⟨_, rfl⟩
  · obtain ⟨s, rfl⟩ := eq_string_of_isString text
    exact ⟨_, rfl⟩

theorem start_of_binaryStart {value : Option Value} {text : String}
    (read : binaryStart value = .ok text) : value = none ∨ isString value = true := by
  cases value with
  | none => exact .inl rfl
  | some v =>
      rw [asString_eq_ok read]
      exact .inr rfl

theorem busDescribed_of_read {s : Signal} {busId : Int} {mimeType encoding text : String}
    {start : Option Value}
    (hbusId : s.intAnnotation "dse.standards.fmi-ls-bus-topology.bus_id" = .ok busId)
    (hmimeType : s.stringAnnotation "mime_type" = .ok mimeType)
    (hencoding : s.stringAnnotation "dse.standards.fmi-ls-binary-to-text.encoding" = .ok encoding)
    (hstart : s.annotation "fmi_variable_start_value" = .ok start)
    (converted : binaryStart start = .ok text) : BusDescribed s := by
  obtain ⟨_, first, integer⟩ := bind_eq_ok.mp hbusId
  obtain ⟨_, second, mime⟩ := bind_eq_ok.mp hmimeType
  obtain ⟨_, third, code⟩ := bind_eq_ok.mp hencoding
  refine ⟨?_, ?_, ?_, ?_⟩
  · rw [annotation_eq_ok first, asInt_eq_ok integer]
    rfl
  · rw [annotation_eq_ok second, asString_eq_ok mime]
    rfl
  · rw [annotation_eq_ok third, asString_eq_ok code]
    rfl
  · rw [annotation_eq_ok hstart]
    exact start_of_binaryStart converted

theorem BusDescribed.read {s : Signal} (described : BusDescribed s) :
    s.intAnnotation "dse.standards.fmi-ls-bus-topology.bus_id" =
        .ok (numberOf (valueOf s "dse.standards.fmi-ls-bus-topology.bus_id")) ∧
      (∃ mimeType, s.stringAnnotation "mime_type" = .ok mimeType) ∧
      (∃ encoding, s.stringAnnotation "dse.standards.fmi-ls-binary-to-text.encoding" =
        .ok encoding) ∧
      ∃ start text, s.annotation "fmi_variable_start_value" = .ok start ∧
        binaryStart start = .ok text := by
  obtain ⟨busId, integer⟩ := eq_int_of_isInt described.busId
  obtain ⟨mimeType, mime⟩ := eq_string_of_isString described.mimeType
  obtain ⟨encoding, code⟩ := eq_string_of_isString described.encoding
  obtain ⟨text, converted⟩ := binaryStart_ok described.start
  obtain ⟨anns, stored⟩ := annotated_of_valueOf integer
  have reads : ∀ k, s.annotation k = .ok (valueOf s k) := by
    intro k
    rw [Signal.annotation_eq stored, valueOf_eq stored]
  refine ⟨?_, ⟨mimeType, ?_⟩, ⟨encoding, ?_⟩, _, text, reads _, converted⟩
  · rw [Signal.intAnnotation, reads, ok_bind, integer]
    rfl
  · rw [Signal.stringAnnotation, reads, ok_bind, mime]
    rfl
  · rw [Signal.stringAnnotation, reads, ok_bind, code]
    rfl

theorem Fmi2.busBuilder : BusBuilder buildBinarySignal ScalarVariable.exported where
  builds s vref causality id described := by
    obtain ⟨busId, ⟨mimeType, mime⟩, ⟨encoding, code⟩, start, text, found, converted⟩ :=
      described.read
    rw [buildBinarySignal, busId, ok_bind, mime, ok_bind, code, ok_bind, found, ok_bind, converted]
    exact ⟨_, rfl, rfl⟩
  needs s vref causality id v built := by
    obtain ⟨_, busId, built⟩ := bind_eq_ok.mp built
    obtain ⟨_, mime, built⟩ := bind_eq_ok.mp built
    obtain ⟨_, code, built⟩ := bind_eq_ok.mp built
    obtain ⟨_, found, built⟩ := bind_eq_ok.mp built
    obtain ⟨_, converted, _⟩ := bind_eq_ok.mp built
    exact busDescribed_of_read busId mime code found converted

theorem Fmi3.busBuilder : BusBuilder buildBinarySignal Binary.exported where
  builds s vref causality id described := by
    obtain ⟨busId, ⟨mimeType, mime⟩, ⟨encoding, code⟩, start, text, found, converted⟩ :=
      described.read
    rw [buildBinarySignal, busId, ok_bind, mime, ok_bind, code, ok_bind, found, ok_bind, converted]
    exact ⟨_, rfl, rfl⟩
  needs s vref causality id v built := by
    obtain ⟨_, busId, built⟩ := bind_eq_ok.mp built
    obtain ⟨_, mime, built⟩ := bind_eq_ok.mp built
    obtain ⟨_, code, built⟩ := bind_eq_ok.mp built
    obtain ⟨_, found, built⟩ := bind_eq_ok.mp built
    obtain ⟨_, converted, _⟩ := bind_eq_ok.mp built
    exact busDescribed_of_read busId mime code found converted

theorem SignalGroupDoc.exported_scalar {doc : SignalGroupDoc}
    (scalar : doc.metadata.isBinary = false) :
    doc.exported = declaredBy scalarExported doc.signals := by
  rw [SignalGroupDoc.exported, scalar]
  rfl

theorem SignalGroupDoc.exported_binary {doc : SignalGroupDoc}
    (binary : doc.metadata.isBinary = true) :
    doc.exported = declaredBy busExported doc.signals := by
  rw [SignalGroupDoc.exported, binary]
  rfl

namespace Fmi2

theorem exported_addVariable (md : ModelDescription) (v : ScalarVariable) :
    (exported (addVariable md v)).Perm (exported md ++ [v.exported]) := by
  rw [addVariable]
  split <;> simp [exported, expandModelStructure]

theorem groupVariables_exports {doc : SignalGroupDoc} (readable : doc.Readable)
    (md : ModelDescription) :
    ∃ md', groupVariables md doc.metadata doc.signals = .ok md' ∧
      (exported md').Perm (exported md ++ doc.exported) := by
  rw [groupVariables]
  cases kind : doc.metadata.isBinary with
  | false =>
      obtain ⟨added, error, ran, all⟩ := eachSignal_exports fun s member =>
        scalarRound_exports (readable.scalar kind s member)
      rw [SignalGroupDoc.exported_scalar kind, ← all, if_neg Bool.false_ne_true, scalarSignal, ran]
      exact ⟨_, rfl, foldl_refs exported_addVariable added md⟩
  | true =>
      obtain ⟨added, error, ran, all⟩ := eachSignal_exports fun s member =>
        busBuilder.busRound_exports (readable.binary kind s member)
      rw [SignalGroupDoc.exported_binary kind, ← all, if_pos rfl, binarySignal, ran]
      exact ⟨_, rfl, foldl_refs exported_addVariable added md⟩

end Fmi2

namespace Fmi3

theorem exported_addFloat64 (md : ModelDescription) (v : Float) :
    (exported (addFloat64 md v)).Perm (exported md ++ [v.exported]) := by
  have same : exported (addFloat64 md v) = md.float64.map Float.exported ++ [v.exported] ++
      (md.string.map Binary.exported ++ md.binary.map Binary.exported) := by
    rw [addFloat64]
    split <;> simp [exported, outputModelStructure]
  rw [same, exported, List.append_assoc, List.append_assoc, List.append_assoc]
  exact List.perm_append_comm.append_left _ |>.trans (by simp)

theorem exported_addBinary (md : ModelDescription) (v : Binary) :
    (exported (addBinary md v)).Perm (exported md ++ [v.exported]) := by
  rw [addBinary]
  split <;> simp [exported, outputModelStructure]

theorem groupVariables_exports {doc : SignalGroupDoc} (readable : doc.Readable)
    (md : ModelDescription) :
    ∃ md', groupVariables md doc.metadata doc.signals = .ok md' ∧
      (exported md').Perm (exported md ++ doc.exported) := by
  rw [groupVariables]
  cases kind : doc.metadata.isBinary with
  | false =>
      obtain ⟨added, error, ran, all⟩ := eachSignal_exports fun s member =>
        scalarRound_exports (readable.scalar kind s member)
      rw [SignalGroupDoc.exported_scalar kind, ← all, if_neg Bool.false_ne_true, scalarSignal, ran]
      exact ⟨_, rfl, foldl_refs exported_addFloat64 added md⟩
  | true =>
      obtain ⟨added, error, ran, all⟩ := eachSignal_exports fun s member =>
        busBuilder.busRound_exports (readable.binary kind s member)
      rw [SignalGroupDoc.exported_binary kind, ← all, if_pos rfl, binarySignal, ran]
      exact ⟨_, rfl, foldl_refs exported_addBinary added md⟩

theorem groupVariables_readable {doc : SignalGroupDoc} {md md' : ModelDescription}
    (ran : groupVariables md doc.metadata doc.signals = .ok md') : doc.Readable := by
  rw [groupVariables] at ran
  refine ⟨fun kind => ?_, fun kind => ?_⟩
  · rw [kind] at ran
    obtain ⟨_, built, _⟩ := bind_eq_ok.mp ran
    obtain ⟨_, loop, _⟩ := bind_eq_ok.mp built
    exact eachSignal_readable (fun _ _ => scalarRound_readable) (fun _ => scalarRound_exports) loop
  · rw [kind] at ran
    obtain ⟨_, built, _⟩ := bind_eq_ok.mp ran
    obtain ⟨_, loop, _⟩ := bind_eq_ok.mp built
    exact eachSignal_readable (fun _ _ => busBuilder.busRound_readable)
      (fun _ => busBuilder.busRound_exports) loop

end Fmi3

end DseFmi.Generate
