import DseFmi.Importer.GeneratedXml

/-!
# The importer reads generated model descriptions

A model description of either version that is generated for an index of signal groups is read as
the groups declare their signals: in their order, with the same references, start values and MIME
types. The library is found in the directory it was generated into, but for the version 3 on the
platforms of 32 bits.
-/

namespace DseFmi.Importer

open DseFmi.Generate
open DseFmi.Library

/-- A round that adds the variables of an entry, or ends where there is none. -/
def Declares {α : Type} (describe : α → Declared) (round : Go (Round α)) :
    Option (List Declared) → Prop
  | none => ∃ error, round = .ok (.stop error)
  | some entry => ∃ added, round = .ok (.add added) ∧ added.map describe = entry

section Rounds

variable {α : Type} {describe : α → Declared} {round : Signal → Go (Round α)}
  {entry : Signal → Option (List Declared)} {ends : Signal → Option (List ExportedVariable)}

theorem length_declaredBy
    (same : ∀ s, (entry s).map List.length = (ends s).map List.length) (signals : List Signal) :
    (declaredBy entry signals).length = (declaredBy ends signals).length := by
  induction signals with
  | nil => rfl
  | cons s signals ih =>
      have lengths := same s
      rw [declaredBy, declaredBy]
      cases listed : ends s with
      | none =>
          rw [listed, Option.map_none, Option.map_eq_none_iff] at lengths
          rw [lengths]
          rfl
      | some vars =>
          rw [listed, Option.map_some, Option.map_eq_some_iff] at lengths
          obtain ⟨others, declared, lengths⟩ := lengths
          rw [declared]
          dsimp only
          rw [List.length_append, List.length_append, lengths, ih]

theorem eachSignal_declares
    (same : ∀ s, (entry s).map List.length = (ends s).map List.length) {signals : List Signal}
    (declares : ∀ s ∈ lookedAt ends signals, Declares describe (round s) (entry s)) :
    ∃ added error, eachSignal round signals = .ok (added, error) ∧
      added.map describe = declaredBy entry signals := by
  induction signals with
  | nil => exact ⟨[], none, rfl, rfl⟩
  | cons s signals ih =>
      have last : (ends s).isNone = (entry s).isNone := by
        rw [← Option.isNone_map (f := List.length), ← same, Option.isNone_map]
      rw [lookedAt, last] at declares
      rw [eachSignal, declaredBy]
      cases listed : entry s with
      | none =>
          rw [listed] at declares
          have first := declares s (List.mem_singleton.mpr rfl)
          rw [listed] at first
          obtain ⟨error, stopped⟩ := first
          rw [stopped]
          exact ⟨[], some error, rfl, rfl⟩
      | some vars =>
          rw [listed] at declares
          have first := declares s List.mem_cons_self
          rw [listed] at first
          obtain ⟨added, ran, all⟩ := first
          obtain ⟨rest, error, later, others⟩ := ih fun t member =>
            declares t (List.mem_cons_of_mem s member)
          rw [ran, ok_bind, later]
          refine ⟨added ++ rest, error, rfl, ?_⟩
          rw [List.map_append, all, others]

end Rounds

theorem length_scalarDeclared (s : Signal) :
    (scalarDeclared s).map List.length = (scalarExported s).map List.length := by
  rw [scalarDeclared, scalarExported, Option.map_map, Option.map_map]
  rfl

theorem length_busPairs (start : String) (mimeType : Option String) (busId : Int) (id : Nat)
    (vrefs : List (Int × Int)) :
    (busPairs start mimeType vrefs).length = (Generate.busVariables busId id vrefs).length := by
  induction vrefs generalizing id with
  | nil => rfl
  | cons pair vrefs ih => simp only [busPairs, Generate.busVariables, List.length_cons, ih (id + 1)]

theorem length_busDeclared (s : Signal) :
    (busDeclared s).map List.length = (busExported s).map List.length := by
  rw [busDeclared, busExported]
  cases vrefsOf s "dse.standards.fmi-ls-bus-topology.rx_vref" with
  | none => rfl
  | some rx =>
      cases vrefsOf s "dse.standards.fmi-ls-bus-topology.tx_vref" with
      | none => rfl
      | some tx =>
          dsimp only
          split_ifs
          · rfl
          · exact congrArg some (length_busPairs _ _ _ _ _)

theorem annotation_eq_valueOf {s : Signal} {anns : Annotations} (stored : s.annotations = some anns)
    (k : String) : s.annotation k = .ok (valueOf s k) := by
  rw [Signal.annotation_eq stored, valueOf_eq stored]

theorem present_itoa (n : Int) : present (itoa n) = some (itoa n) := by
  apply if_neg
  cases n with
  | ofNat n => exact Nat.repr_ne_empty
  | negSucc n =>
      show "-" ++ Nat.repr (n + 1) ≠ ""
      simp

/-- Both versions write the start value of a scalar that they read. -/
theorem scalarStart_startOf {s : Signal} (number : valueOf s "fmi_variable_start_value" = none ∨
      isInt (valueOf s "fmi_variable_start_value") = true) (causality : String) :
    present (Fmi2.scalarStart causality (valueOf s "fmi_variable_start_value")) =
        startOf s causality ∧
      ∃ text, Fmi3.scalarStart causality (valueOf s "fmi_variable_start_value") = .ok text ∧
        present text = startOf s causality := by
  rw [startOf]
  rcases number with absent | number
  · rw [absent, Fmi2.scalarStart, Fmi3.scalarStart]
    · by_cases given : causality = "input" ∨ causality = "parameter"
      · simp [given, present]
      · simp [given, present]
    · simp
    · simp
  · obtain ⟨n, integer⟩ := eq_int_of_isInt number
    rw [integer]
    exact ⟨present_itoa n, _, rfl, present_itoa n⟩

theorem scalarRound_fmi2Declared (sprintfV : Value → String) {s : Signal}
    (readable : ScalarReadable s) :
    Declares (fmi2Declared sprintfV) (Fmi2.scalarRound s) (scalarDeclared s) := by
  obtain ⟨causality, found⟩ := eq_string_of_isString readable.causality
  obtain ⟨anns, stored⟩ := annotated_of_valueOf found
  obtain ⟨tools, annotated⟩ := Fmi2.annotationsFromSignal_ok stored
  have start := (scalarStart_startOf readable.start causality).1
  rw [Fmi2.scalarRound, annotation_eq_valueOf stored, annotation_eq_valueOf stored,
    annotation_eq_valueOf stored, ok_bind, found, scalarDeclared, found]
  dsimp only
  rw [Value.asString_string, ok_bind, ok_bind, ok_bind, textOf]
  rcases readable.vref with absent | number
  · rw [absent]
    exact ⟨_, rfl⟩
  · obtain ⟨n, integer⟩ := eq_int_of_isInt number
    rw [integer]
    dsimp only
    rw [annotated, ← start]
    exact ⟨_, rfl, rfl⟩

theorem scalarRound_floatDeclared {s : Signal} (readable : ScalarReadable s) :
    Declares floatDeclared (Fmi3.scalarRound s) (scalarDeclared s) := by
  obtain ⟨causality, found⟩ := eq_string_of_isString readable.causality
  obtain ⟨anns, stored⟩ := annotated_of_valueOf found
  obtain ⟨items, annotated⟩ := Fmi3.annotationsFromSignal_ok stored
  obtain ⟨text, started, start⟩ := (scalarStart_startOf readable.start causality).2
  rw [Fmi3.scalarRound, Signal.stringAnnotation, annotation_eq_valueOf stored,
    annotation_eq_valueOf stored, annotation_eq_valueOf stored, ok_bind, found,
    Value.asString_string, ok_bind, ok_bind, started, ok_bind, ok_bind, scalarDeclared, found,
    textOf]
  rcases readable.vref with absent | number
  · rw [absent]
    exact ⟨_, rfl⟩
  · obtain ⟨n, integer⟩ := eq_int_of_isInt number
    rw [integer]
    dsimp only
    rw [Value.asInt_int, ok_bind, annotated, ← start]
    exact ⟨_, rfl, rfl⟩

section Bus

variable {α : Type} {build : Signal → Int → String → Nat → Go α} {describe : α → Declared}
  {s : Signal}

/-- The variables that are built for a bus are read with its start value and its MIME type. -/
def BuildsBus (build : Signal → Int → String → Nat → Go α) (describe : α → Declared)
    (s : Signal) : Prop :=
  ∀ vref causality id, BusDescribed s → ∃ v, build s vref causality id = .ok v ∧
    describe v = .binary (itoa vref) (if causality = "rx" then "input" else "output")
      (textOf (valueOf s "fmi_variable_start_value")) (some (textOf (valueOf s "mime_type")))

theorem buildBinarySignals_declares (builds : BuildsBus build describe s) (id : Nat)
    {vrefs : List (Int × Int)} (described : vrefs ≠ [] → BusDescribed s) :
    ∃ vars, buildBinarySignals build s id vrefs = .ok vars ∧ vars.map describe =
      busPairs (textOf (valueOf s "fmi_variable_start_value"))
        (some (textOf (valueOf s "mime_type"))) vrefs := by
  induction vrefs generalizing id with
  | nil => exact ⟨[], rfl, rfl⟩
  | cons pair vrefs ih =>
      obtain ⟨rx, tx⟩ := pair
      have texts := described (List.cons_ne_nil _ _)
      obtain ⟨first, hfirst, rxVariable⟩ := builds rx "rx" id texts
      obtain ⟨second, hsecond, txVariable⟩ := builds tx "tx" id texts
      obtain ⟨rest, later, all⟩ := ih (id + 1) fun _ => texts
      rw [buildBinarySignals, hfirst, ok_bind, hsecond, ok_bind, later]
      refine ⟨first :: second :: rest, rfl, ?_⟩
      rw [List.map_cons, List.map_cons, rxVariable, txVariable, all]
      rfl

theorem busRound_declares (builds : BuildsBus build describe s) (readable : BusReadable s) :
    Declares describe (busRound build s) (busDeclared s) := by
  obtain ⟨anns, stored⟩ := Option.isSome_iff_exists.mp readable.annotated
  have described := readable.described
  have readableTx := readable.tx
  rw [busExported] at described
  rw [busRound, busVrefs_ok stored readable.rx, ok_bind, busDeclared]
  cases rx : vrefsOf s "dse.standards.fmi-ls-bus-topology.rx_vref" with
  | none => exact ⟨_, rfl⟩
  | some rxVrefs =>
      rw [rx] at readableTx described
      dsimp only
      rw [busVrefs_ok stored (readableTx rfl), ok_bind]
      cases tx : vrefsOf s "dse.standards.fmi-ls-bus-topology.tx_vref" with
      | none => exact ⟨_, rfl⟩
      | some txVrefs =>
          rw [tx] at described
          dsimp only at described ⊢
          by_cases mismatch : rxVrefs.length ≠ txVrefs.length
          · rw [if_pos mismatch, if_pos mismatch]
            exact ⟨_, rfl⟩
          · rw [if_neg mismatch] at described
            rw [if_neg mismatch, if_neg mismatch]
            obtain ⟨vars, built, all⟩ := buildBinarySignals_declares builds 1
              (fun pairs => described (busVariables_ne_nil pairs))
            rw [built]
            exact ⟨vars, rfl, all⟩

theorem values_of_described (described : BusDescribed s) :
    ∃ busId encoding,
      s.intAnnotation "dse.standards.fmi-ls-bus-topology.bus_id" = .ok busId ∧
      s.stringAnnotation "mime_type" = .ok (textOf (valueOf s "mime_type")) ∧
      s.stringAnnotation "dse.standards.fmi-ls-binary-to-text.encoding" = .ok encoding ∧
      s.annotation "fmi_variable_start_value" = .ok (valueOf s "fmi_variable_start_value") ∧
      binaryStart (valueOf s "fmi_variable_start_value") =
        .ok (textOf (valueOf s "fmi_variable_start_value")) := by
  obtain ⟨busId, integer⟩ := eq_int_of_isInt described.busId
  obtain ⟨mimeType, mime⟩ := eq_string_of_isString described.mimeType
  obtain ⟨encoding, code⟩ := eq_string_of_isString described.encoding
  obtain ⟨anns, stored⟩ := annotated_of_valueOf integer
  refine ⟨busId, encoding, ?_, ?_, ?_, annotation_eq_valueOf stored _, ?_⟩
  · rw [Signal.intAnnotation, annotation_eq_valueOf stored, integer]
    rfl
  · rw [Signal.stringAnnotation, annotation_eq_valueOf stored, mime]
    rfl
  · rw [Signal.stringAnnotation, annotation_eq_valueOf stored, code]
    rfl
  · rcases described.start with absent | text
    · rw [absent]
      rfl
    · obtain ⟨start, given⟩ := eq_string_of_isString text
      rw [given]
      rfl

theorem fmi2_buildsBus (sprintfV : Value → String)
    (mimeType : valueOf s "mime_type" ≠ some (.string "")) :
    BuildsBus Fmi2.buildBinarySignal (fmi2Declared sprintfV) s := by
  intro vref causality id described
  obtain ⟨busId, encoding, hbusId, hmimeType, hencoding, hstart, converted⟩ :=
    values_of_described described
  rw [Fmi2.buildBinarySignal, hbusId, ok_bind, hmimeType, ok_bind, hencoding, ok_bind, hstart,
    ok_bind, converted]
  refine ⟨_, rfl, ?_⟩
  have written : present (textOf (valueOf s "mime_type")) =
      some (textOf (valueOf s "mime_type")) := by
    obtain ⟨text, given⟩ := eq_string_of_isString described.mimeType
    rw [given] at mimeType ⊢
    apply if_neg
    rintro rfl
    exact mimeType rfl
  simp [fmi2Declared, Fmu.parseToolAnno, VariableNode.scalarVariable, fmi2Node, annotationsXml,
    VariableChild.xmlChild, toolXml, codecTool, busAnnotation, annotationText, written]

theorem fmi3_buildsBus (sprintfV : Value → String) :
    BuildsBus Fmi3.buildBinarySignal (binaryDeclared sprintfV) s := by
  intro vref causality id described
  obtain ⟨busId, encoding, hbusId, hmimeType, hencoding, hstart, converted⟩ :=
    values_of_described described
  rw [Fmi3.buildBinarySignal, hbusId, ok_bind, hmimeType, ok_bind, hencoding, ok_bind, hstart,
    ok_bind, converted]
  refine ⟨_, rfl, ?_⟩
  simp [binaryDeclared, parseFmi3ToolAnno, binaryNode, codecTool, busElement, annotationText]

end Bus

def MimeTypesGiven (doc : SignalGroupDoc) : Prop :=
  doc.metadata.isBinary = true → ∀ s ∈ lookedAt busExported doc.signals,
    valueOf s "mime_type" ≠ some (.string "")

theorem declaredOf_eq_nil {doc : SignalGroupDoc} (nothing : doc.exported = []) :
    declaredOf doc = [] := by
  apply List.eq_nil_of_length_eq_zero
  rw [SignalGroupDoc.exported] at nothing
  rw [declaredOf]
  split
  next binary =>
    rw [if_pos binary] at nothing
    rw [length_declaredBy length_busDeclared, nothing, List.length_nil]
  next scalar =>
    rw [if_neg scalar] at nothing
    rw [length_declaredBy length_scalarDeclared, nothing, List.length_nil]

section Groups

variable {D : Type} {atof : String → D} {zero : D} {config : CodecConfig}
  {sprintfV : Value → String} {doc : SignalGroupDoc} {M α β : Type}

theorem foldl_appends {field : M → List α} {add : M → α → M}
    (step : ∀ md v, field (add md v) = field md ++ [v]) (vs : List α) (md : M) :
    field (vs.foldl add md) = field md ++ vs := by
  induction vs generalizing md with
  | nil => exact (List.append_nil _).symm
  | cons v vs ih => rw [List.foldl_cons, ih, step, List.append_assoc, List.singleton_append]

theorem foldl_keeps {field : M → List β} {add : M → α → M}
    (step : ∀ md v, field (add md v) = field md) (vs : List α) (md : M) :
    field (vs.foldl add md) = field md := by
  induction vs generalizing md with
  | nil => rfl
  | cons v vs ih => rw [List.foldl_cons, ih, step]

theorem scalarVariable_addVariable (md : Fmi2.ModelDescription) (v : Fmi2.ScalarVariable) :
    (Fmi2.addVariable md v).scalarVariable = md.scalarVariable ++ [v] := by
  rw [Fmi2.addVariable]
  split <;> rfl

def fmi2Maps (atof : String → D) (zero : D) (config : CodecConfig) (sprintfV : Value → String)
    (md : Fmi2.ModelDescription) : VrMaps D :=
  (md.scalarVariable.map (fmi2Declared sprintfV)).foldl (Declared.add atof zero config) .empty

theorem fmi2_groupVariables (readable : doc.Readable) (given : MimeTypesGiven doc)
    (md : Fmi2.ModelDescription) :
    ∃ md', Fmi2.groupVariables md doc.metadata doc.signals = .ok md' ∧
      fmi2Maps atof zero config sprintfV md' =
        (declaredOf doc).foldl (Declared.add atof zero config)
          (fmi2Maps atof zero config sprintfV md) := by
  rw [Fmi2.groupVariables, declaredOf]
  cases kind : doc.metadata.isBinary with
  | false =>
      obtain ⟨added, error, ran, all⟩ := eachSignal_declares length_scalarDeclared
        fun s member => scalarRound_fmi2Declared sprintfV (readable.scalar kind s member)
      rw [if_neg Bool.false_ne_true, if_neg Bool.false_ne_true, Fmi2.scalarSignal, ran, ← all]
      refine ⟨_, rfl, ?_⟩
      rw [fmi2Maps, foldl_appends scalarVariable_addVariable, List.map_append, List.foldl_append,
        fmi2Maps]
  | true =>
      obtain ⟨added, error, ran, all⟩ := eachSignal_declares length_busDeclared
        fun s member => busRound_declares (fmi2_buildsBus sprintfV (given kind s member))
          (readable.binary kind s member)
      rw [if_pos rfl, if_pos rfl, Fmi2.binarySignal, ran, ← all]
      refine ⟨_, rfl, ?_⟩
      rw [fmi2Maps, foldl_appends scalarVariable_addVariable, List.map_append, List.foldl_append,
        fmi2Maps]

theorem float64_addFloat64 (md : Fmi3.ModelDescription) (v : Fmi3.Float) :
    (Fmi3.addFloat64 md v).float64 = md.float64 ++ [v] := by
  rw [Fmi3.addFloat64]
  split <;> rfl

theorem binary_addFloat64 (md : Fmi3.ModelDescription) (v : Fmi3.Float) :
    (Fmi3.addFloat64 md v).binary = md.binary := by
  rw [Fmi3.addFloat64]
  split <;> rfl

theorem float64_addBinary (md : Fmi3.ModelDescription) (v : Fmi3.Binary) :
    (Fmi3.addBinary md v).float64 = md.float64 := by
  rw [Fmi3.addBinary]
  split <;> rfl

theorem binary_addBinary (md : Fmi3.ModelDescription) (v : Fmi3.Binary) :
    (Fmi3.addBinary md v).binary = md.binary ++ [v] := by
  rw [Fmi3.addBinary]
  split <;> rfl

/-- The maps of a description of the version 3, where the binaries stand behind the reals. -/
def fmi3Maps (atof : String → D) (zero : D) (config : CodecConfig) (sprintfV : Value → String)
    (md : Fmi3.ModelDescription) : VrMaps D :=
  (md.binary.map (binaryDeclared sprintfV)).foldl (Declared.add atof zero config)
    ((md.float64.map floatDeclared).foldl (Declared.add atof zero config) .empty)

theorem fmi3_groupVariables (readable : doc.Readable) (md : Fmi3.ModelDescription) :
    ∃ md', Fmi3.groupVariables md doc.metadata doc.signals = .ok md' ∧
      fmi3Maps atof zero config sprintfV md' =
        (declaredOf doc).foldl (Declared.add atof zero config)
          (fmi3Maps atof zero config sprintfV md) := by
  rw [Fmi3.groupVariables, declaredOf]
  cases kind : doc.metadata.isBinary with
  | false =>
      obtain ⟨added, error, ran, all⟩ := eachSignal_declares length_scalarDeclared
        fun s member => scalarRound_floatDeclared (readable.scalar kind s member)
      rw [if_neg Bool.false_ne_true, if_neg Bool.false_ne_true, Fmi3.scalarSignal, ran, ← all]
      refine ⟨_, rfl, ?_⟩
      rw [fmi3Maps, foldl_appends float64_addFloat64, foldl_keeps binary_addFloat64,
        List.map_append, List.foldl_append, foldl_binaries_reals, fmi3Maps]
  | true =>
      obtain ⟨added, error, ran, all⟩ := eachSignal_declares length_busDeclared
        fun s member => busRound_declares (fmi3_buildsBus sprintfV)
          (readable.binary kind s member)
      rw [if_pos rfl, if_pos rfl, Fmi3.binarySignal, ran, ← all]
      refine ⟨_, rfl, ?_⟩
      rw [fmi3Maps, foldl_keeps float64_addBinary, foldl_appends binary_addBinary,
        List.map_append, List.foldl_append, fmi3Maps]

theorem eachDoc_declares {maps : M → VrMaps D} {adds : SignalGroupDoc → Bool}
    {round : M → ObjectMetadata → List Signal → Go M} {docs : List SignalGroupDoc}
    (spec : ∀ doc ∈ docs.filter adds, ∀ md, ∃ md', round md doc.metadata doc.signals = .ok md' ∧
      maps md' = (declaredOf doc).foldl (Declared.add atof zero config) (maps md))
    (md : M) (channels : List String) :
    ∃ md' channels', eachDoc adds round (md, channels) docs = .ok (md', channels') ∧
      maps md' = ((docs.filter adds).flatMap declaredOf).foldl (Declared.add atof zero config)
        (maps md) := by
  induction docs generalizing md channels with
  | nil => exact ⟨md, channels, rfl, rfl⟩
  | cons doc docs ih =>
      rw [eachDoc]
      by_cases added : adds doc = true
      · rw [List.filter_cons_of_pos added] at spec ⊢
        obtain ⟨after, ran, first⟩ := spec doc List.mem_cons_self md
        obtain ⟨md', channels', rest, all⟩ := ih (fun other member =>
          spec other (List.mem_cons_of_mem doc member)) after (doc.metadata.addChannel channels)
        rw [if_pos added, ran, ok_bind, rest]
        refine ⟨md', channels', rfl, ?_⟩
        rw [List.flatMap_cons, List.foldl_append, ← first]
        exact all
      · rw [List.filter_cons_of_neg added] at spec ⊢
        rw [if_neg added]
        exact ih spec md channels

variable (atof zero config sprintfV)

theorem fmi2_variablesFromSignalgroups {signalGroups : String} {docs : List SignalGroupDoc}
    (readable : ∀ doc ∈ selectedDocs signalGroups docs, doc.Readable)
    (given : ∀ doc ∈ selectedDocs signalGroups docs, MimeTypesGiven doc)
    (index : ∀ doc ∈ selectedDocs signalGroups docs, doc.hasIndex = true → doc.exported = []) :
    ∃ md channels, Fmi2.variablesFromSignalgroups (Fmi2.setGeneralFmuXmlFields []) signalGroups
        docs = .ok (md, channels) ∧
      fmi2Maps atof zero config sprintfV md =
        declaredMaps atof zero config (selectedDocs signalGroups docs) := by
  have plain : ((selectedDocs signalGroups docs).filter fun doc => !doc.hasIndex).flatMap
      declaredOf = (selectedDocs signalGroups docs).flatMap declaredOf := by
    generalize selectedDocs signalGroups docs = selected at index
    induction selected with
    | nil => rfl
    | cons doc selected ih =>
        have rest := ih fun other member => index other (List.mem_cons_of_mem doc member)
        cases label : doc.hasIndex with
        | false => rw [List.filter_cons_of_pos (by simp [label]), List.flatMap_cons, rest]; rfl
        | true =>
            rw [List.filter_cons_of_neg (by simp [label]), rest, List.flatMap_cons,
              declaredOf_eq_nil (index doc List.mem_cons_self label), List.nil_append]
  rw [declaredMaps, ← plain, ← filter_selected_plain]
  apply eachDoc_declares
  intro doc member md
  rw [filter_selected_plain] at member
  have selected := (List.mem_filter.mp member).1
  exact fmi2_groupVariables (readable doc selected) (given doc selected) md

theorem fmi3_variablesFromSignalgroups {signalGroups : String} {docs : List SignalGroupDoc}
    (readable : ∀ doc ∈ selectedDocs signalGroups docs, doc.Readable) :
    ∃ md channels, Fmi3.variablesFromSignalgroups (Fmi3.setGeneralFmuXmlFields []) signalGroups
        docs = .ok (md, channels) ∧
      fmi3Maps atof zero config sprintfV md =
        declaredMaps atof zero config (selectedDocs signalGroups docs) := by
  rw [declaredMaps]
  apply eachDoc_declares
  intro doc member md
  exact fmi3_groupVariables (readable doc member) md

end Groups

/-- Where the generator puts the library of an FMU, below the directory of the FMU. -/
def binaryPath (platform fmiVersion modelIdentifier : String) : String :=
  "binaries/" ++ getFmuBinaryDirName platform fmiVersion ++ "/" ++ modelIdentifier ++
    libExtension platform

theorem eq_of_cut {platform os arch : String} (found : cut platform '-' = (os, some arch)) :
    platform = os ++ "-" ++ arch := by
  rw [cut] at found
  split at found
  · cases found
  next c rest tail =>
    obtain ⟨rfl, same⟩ := Prod.mk.inj found
    obtain rfl := Option.some.inj same
    have separator : c = '-' := by
      have first := List.head?_dropWhile_not (· ≠ '-') platform.toList
      rw [tail] at first
      simpa using first
    have whole := List.takeWhile_append_dropWhile (p := fun c : Char => decide (c ≠ '-'))
      (l := platform.toList)
    rw [tail, separator] at whole
    apply String.toList_inj.mp
    apply whole.symm.trans
    simp

theorem supported_platforms {platform : String}
    (supported : getFmuBinaryDirName platform "2" ≠ "") :
    platform ∈ ["linux-amd64", "linux-x86", "linux-i386", "windows-x64", "windows-x86"] := by
  unfold getFmuBinaryDirName at supported
  split at supported
  · exact absurd rfl supported
  next os arch found =>
    have known : os = "linux" ∧ (arch = "amd64" ∨ arch = "x86" ∨ arch = "i386") ∨
        os = "windows" ∧ (arch = "x64" ∨ arch = "x86") := by
      split_ifs at supported <;> simp_all
    rw [eq_of_cut found]
    rcases known with ⟨rfl, rfl | rfl | rfl⟩ | ⟨rfl, rfl | rfl⟩ <;> decide

theorem path_eq_iff (dir other modelIdentifier extension : String) :
    "binaries/" ++ dir ++ "/" ++ modelIdentifier ++ "." ++ extension =
        "binaries/" ++ other ++ "/" ++ modelIdentifier ++ ("." ++ extension) ↔ dir = other := by
  simp [String.append_assoc]

/-- The importer and the generator name the same path, but for the version 3 on the platforms of
32 bits. -/
theorem getFmuBinaryPath_supported {platform : String}
    (supported : getFmuBinaryDirName platform "2" ≠ "") (modelIdentifier : String) :
    getFmuBinaryPath platform 2 (some modelIdentifier) =
        some (binaryPath platform "2" modelIdentifier) ∧
      ∃ path, getFmuBinaryPath platform 3 (some modelIdentifier) = some path ∧
        (path = binaryPath platform "3" modelIdentifier ↔
          platform = "linux-amd64" ∨ platform = "windows-x64") := by
  have platforms := supported_platforms supported
  simp only [List.mem_cons, List.not_mem_nil, or_false] at platforms
  rcases platforms with rfl | rfl | rfl | rfl | rfl
  · refine ⟨congrArg some ((path_eq_iff "linux64" "linux64" _ "so").mpr rfl), _, rfl, ?_⟩
    exact (path_eq_iff "x86_64-linux" "x86_64-linux" _ "so").trans (by decide)
  · refine ⟨congrArg some ((path_eq_iff "linux32" "linux32" _ "so").mpr rfl), _, rfl, ?_⟩
    exact (path_eq_iff "x86_32-linux" "x86-linux" _ "so").trans (by decide)
  · refine ⟨congrArg some ((path_eq_iff "linux32" "linux32" _ "so").mpr rfl), _, rfl, ?_⟩
    exact (path_eq_iff "x86_32-linux" "x86-linux" _ "so").trans (by decide)
  · refine ⟨congrArg some ((path_eq_iff "win64" "win64" _ "dll").mpr rfl), _, rfl, ?_⟩
    exact (path_eq_iff "x86_64-windows" "x86_64-windows" _ "dll").trans (by decide)
  · refine ⟨congrArg some ((path_eq_iff "win32" "win32" _ "dll").mpr rfl), _, rfl, ?_⟩
    exact (path_eq_iff "x86_64-windows" "x86-windows" _ "dll").trans (by decide)

section Versions

variable {D : Type} (order : HashOrder) (zero : D) (atof : String → D) (config : CodecConfig)
  (sprintfV : Value → String) (modelIdentifier : String)

theorem parseModelDesc_eq_some {platform version path : String} {xml : ModelXml}
    {storage : Storage D} (written : xml.fmiVersion = some version)
    (parsed : parseVariables order zero atof config (atoi version.toList) xml = some storage)
    (found : getFmuBinaryPath platform (atoi version.toList) xml.modelIdentifier = some path) :
    parseModelDesc order zero atof config platform xml = some ⟨version, path, storage⟩ := by
  rw [parseModelDesc, written]
  simp only [Option.bind_eq_bind, Option.bind_some, parsed, found]
  rfl

/-- The importer reads the same variables from the descriptions of both versions that are
generated for the selected groups, and these are the ones that the groups declare. -/
theorem parseModelDesc_generated {platform signalGroups : String} {docs : List SignalGroupDoc}
    (supported : getFmuBinaryDirName platform "2" ≠ "")
    (readable : ∀ doc ∈ selectedDocs signalGroups docs, doc.Readable)
    (given : ∀ doc ∈ selectedDocs signalGroups docs, MimeTypesGiven doc)
    (index : ∀ doc ∈ selectedDocs signalGroups docs, doc.hasIndex = true → doc.exported = []) :
    ∃ md2 md3 channels2 channels3 path,
      Fmi2.variablesFromSignalgroups (Fmi2.setGeneralFmuXmlFields []) signalGroups docs =
        .ok (md2, channels2) ∧
      Fmi3.variablesFromSignalgroups (Fmi3.setGeneralFmuXmlFields []) signalGroups docs =
        .ok (md3, channels3) ∧
      parseModelDesc order zero atof config platform (fmi2Xml sprintfV modelIdentifier md2) =
        some ⟨"2.0", binaryPath platform "2" modelIdentifier,
          allocStorage order zero
            (declaredMaps atof zero config (selectedDocs signalGroups docs))⟩ ∧
      parseModelDesc order zero atof config platform (fmi3Xml sprintfV modelIdentifier md3) =
        some ⟨"3.0", path,
          allocStorage order zero
            (declaredMaps atof zero config (selectedDocs signalGroups docs))⟩ ∧
      (path = binaryPath platform "3" modelIdentifier ↔
        platform = "linux-amd64" ∨ platform = "windows-x64") := by
  obtain ⟨md2, channels2, ran2, maps2⟩ :=
    fmi2_variablesFromSignalgroups atof zero config sprintfV readable given index
  obtain ⟨md3, channels3, ran3, maps3⟩ :=
    fmi3_variablesFromSignalgroups atof zero config sprintfV readable
  obtain ⟨path2, path, path3, found⟩ := getFmuBinaryPath_supported supported modelIdentifier
  have version2 : atoi "2.0".toList = 2 := by decide
  have version3 : atoi "3.0".toList = 3 := by decide
  refine ⟨md2, md3, channels2, channels3, path, ran2, ran3, ?_, ?_, found⟩
  · apply parseModelDesc_eq_some
    · rfl
    · rw [version2, parseVariables, if_pos rfl, parseFmi2ModelDesc_fmi2Xml, ← maps2, fmi2Maps]
    · rw [version2]
      exact path2
  · apply parseModelDesc_eq_some
    · rfl
    · have other : ¬ (3 : UInt32) = 2 := by decide
      rw [version3, parseVariables, if_neg other, if_pos rfl, parseFmi3ModelDesc_fmi3Xml, ← maps3,
        fmi3Maps, Option.map_some]
    · rw [version3]
      exact path3

end Versions

/-- A pedal with a start value, a bus with a pair of references and a filter that lets both
groups through. -/
def pedal : Signal where
  signal := "pedal"
  annotations := some ((((∅ : Annotations).insert "fmi_variable_vref" (.int 1)).insert
    "fmi_variable_causality" (.string "input")).insert "fmi_variable_start_value" (.int 5))

def pedalDoc : SignalGroupDoc where
  name := "pedals"
  annotations := ∅
  labels := ∅
  signals := [pedal]

def canBus : Signal where
  signal := "can"
  annotations := some ((((((∅ : Annotations).insert
    "dse.standards.fmi-ls-bus-topology.rx_vref" (.ints [2])).insert
    "dse.standards.fmi-ls-bus-topology.tx_vref" (.ints [3])).insert
    "dse.standards.fmi-ls-bus-topology.bus_id" (.int 1)).insert
    "mime_type" (.string "application/x-automotive-bus")).insert
    "dse.standards.fmi-ls-binary-to-text.encoding" (.string "ascii85"))

def canDoc : SignalGroupDoc where
  name := "buses"
  annotations := (∅ : Annotations).insert "vector_type" (.string "binary")
  labels := ∅
  signals := [canBus]

theorem readable_pedalDoc : pedalDoc.Readable where
  scalar _ s member := by
    obtain rfl := List.mem_singleton.mp member
    exact ⟨rfl, .inr rfl, .inr rfl⟩
  binary kind := absurd kind (by decide)

theorem readable_canDoc : canDoc.Readable where
  scalar kind := absurd kind (by decide)
  binary _ s member := by
    obtain rfl := List.mem_singleton.mp member
    refine ⟨rfl, ?_, ?_, fun _ => ⟨rfl, rfl, rfl, .inl rfl⟩⟩
    · intro items listed
      cases listed
    · intro _ items listed
      cases listed

theorem mimeTypesGiven_pedalDoc : MimeTypesGiven pedalDoc := by
  intro kind
  exact absurd kind (by decide)

theorem mimeTypesGiven_canDoc : MimeTypesGiven canDoc := by
  intro _ s member empty
  obtain rfl := List.mem_singleton.mp member
  exact absurd (congrArg textOf empty) (by decide)

def frameConfig : CodecConfig := fun _ => [("type", "frame")]

def readInt (text : String) : Int := leadingInt text.toList

def pedalStorage : Storage Int where
  desc :=
    { vrRxReal := [1]
      vrTxReal := []
      rxBinary := [⟨2, some "application/x-automotive-bus", some "frame"⟩]
      txBinary := [⟨3, some "application/x-automotive-bus", some "frame"⟩] }
  valRxReal := [5]
  valTxReal := []

theorem parseModelDesc_generated_pedal :
    ∃ md2 md3 channels2 channels3,
      Fmi2.variablesFromSignalgroups (Fmi2.setGeneralFmuXmlFields []) "pedals,buses"
        [pedalDoc, canDoc] = .ok (md2, channels2) ∧
      Fmi3.variablesFromSignalgroups (Fmi3.setGeneralFmuXmlFields []) "pedals,buses"
        [pedalDoc, canDoc] = .ok (md3, channels3) ∧
      parseModelDesc listedOrder 0 readInt frameConfig "linux-amd64"
          (fmi2Xml (fun _ => "") "fmi2modelcfmu" md2) =
        some ⟨"2.0", "binaries/linux64/fmi2modelcfmu.so", pedalStorage⟩ ∧
      parseModelDesc listedOrder 0 readInt frameConfig "linux-amd64"
          (fmi3Xml (fun _ => "") "fmi2modelcfmu" md3) =
        some ⟨"3.0", "binaries/x86_64-linux/fmi2modelcfmu.so", pedalStorage⟩ := by
  have selected : selectedDocs "pedals,buses" [pedalDoc, canDoc] = [pedalDoc, canDoc] := rfl
  have all := @parseModelDesc_generated Int listedOrder 0 readInt frameConfig (fun _ => "")
    "fmi2modelcfmu" "linux-amd64" "pedals,buses" [pedalDoc, canDoc] (by decide)
  rw [selected] at all
  obtain ⟨md2, md3, channels2, channels3, path, ran2, ran3, parsed2, parsed3, found⟩ := all
    (by
      simp only [List.forall_mem_cons]
      exact ⟨readable_pedalDoc, readable_canDoc, fun _ member => absurd member List.not_mem_nil⟩)
    (by
      simp only [List.forall_mem_cons]
      exact ⟨mimeTypesGiven_pedalDoc, mimeTypesGiven_canDoc,
        fun _ member => absurd member List.not_mem_nil⟩)
    (by
      simp only [List.forall_mem_cons]
      exact ⟨fun label => absurd label (by decide), fun label => absurd label (by decide),
        fun _ member => absurd member List.not_mem_nil⟩)
  have path2 : binaryPath "linux-amd64" "2" "fmi2modelcfmu" =
      "binaries/linux64/fmi2modelcfmu.so" := by decide
  have storage : allocStorage listedOrder 0
      (declaredMaps readInt 0 frameConfig [pedalDoc, canDoc]) = pedalStorage := rfl
  have path3 : path = "binaries/x86_64-linux/fmi2modelcfmu.so" := found.mpr (.inl rfl)
  rw [path2, storage] at parsed2
  rw [path3, storage] at parsed3
  exact ⟨md2, md3, channels2, channels3, ran2, ran3, parsed2, parsed3⟩

end DseFmi.Importer
