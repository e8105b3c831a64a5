import DseFmi.Generate.SignalEntries
import DseFmi.Library.Positions
import Mathlib

/-!
# The outputs of an FMI 2 model structure

The model structure should list the positions of the output variables. What it lists are the
value references of the scalar and binary outputs.
-/

namespace DseFmi.Generate.Fmi2

open DseFmi.Library

inductive BuilderCall where
  | scalarSignal (signals : List Signal)
  | binarySignal (signals : List Signal)
  | stringSignal (signals : List Signal)

/-- The description after a call; the error of a call is for its caller. -/
def BuilderCall.run (fmiXml : ModelDescription) : BuilderCall → Go ModelDescription
  | .scalarSignal signals => do
      let (fmiXml, _) ← Fmi2.scalarSignal fmiXml signals
      return fmiXml
  | .binarySignal signals => do
      let (fmiXml, _) ← Fmi2.binarySignal fmiXml signals
      return fmiXml
  | .stringSignal signals => do
      let (fmiXml, _) ← Fmi2.stringSignal fmiXml signals
      return fmiXml

/-- The description that a sequence of calls builds. -/
def describe (annotations : List (String × String)) (calls : List BuilderCall) :
    Go ModelDescription :=
  calls.foldlM BuilderCall.run (setGeneralFmuXmlFields annotations)

def ScalarVariable.isOutput (v : ScalarVariable) : Bool := v.causality = "output"

/-- How the text of an index is read; the decimal text of a number is read as the number. -/
structure IndexReading where
  read : String → Option Nat
  read_repr : ∀ n, read (Nat.repr n) = some n

def IndexReading.decimal : IndexReading := ⟨String.toNat?, Nat.toNat?_repr⟩

structure OutputsListed (index : IndexReading) (md : ModelDescription) : Prop where
  denotes : ∀ u ∈ md.outputs, ∃ i v,
    index.read u = some (i + 1) ∧ md.scalarVariable[i]? = some v ∧ v.isOutput = true
  complete : ∀ i v, md.scalarVariable[i]? = some v → v.isOutput = true →
    ∃ u ∈ md.outputs, index.read u = some (i + 1)
  once : (md.outputs.map index.read).Nodup
  initialUnknowns : md.initialUnknowns.map index.read = md.outputs.map index.read

theorem outputsListed_iff_perm {index : IndexReading} {md : ModelDescription} :
    OutputsListed index md ↔
      (md.outputs.map index.read).Perm
        ((positions ScalarVariable.isOutput md.scalarVariable).map some) ∧
      md.initialUnknowns.map index.read = md.outputs.map index.read := by
  have distinct : ((positions ScalarVariable.isOutput md.scalarVariable).map some).Nodup :=
    nodup_positions.map (Option.some_injective Nat)
  rw [perm_iff_lists distinct]
  constructor
  · intro listed
    refine ⟨⟨listed.once, ?_, ?_⟩, listed.initialUnknowns⟩
    · intro n member
      obtain ⟨u, here, rfl⟩ := List.mem_map.mp member
      obtain ⟨i, v, denoted, found, output⟩ := listed.denotes u here
      exact List.mem_map.mpr ⟨i + 1, mem_positions.mpr ⟨i, v, rfl, found, output⟩, denoted.symm⟩
    · intro n member
      obtain ⟨k, here, rfl⟩ := List.mem_map.mp member
      obtain ⟨i, v, rfl, found, output⟩ := mem_positions.mp here
      obtain ⟨u, there, denoted⟩ := listed.complete i v found output
      exact List.mem_map.mpr ⟨u, there, denoted⟩
  · rintro ⟨⟨once, sound, complete⟩, unknowns⟩
    refine ⟨?_, ?_, once, unknowns⟩
    · intro u here
      obtain ⟨k, there, denoted⟩ := List.mem_map.mp (sound _ (List.mem_map_of_mem here))
      obtain ⟨i, v, rfl, found, output⟩ := mem_positions.mp there
      exact ⟨i, v, denoted.symm, found, output⟩
    · intro i v found output
      have there := mem_positions.mpr ⟨i, v, rfl, found, output⟩
      obtain ⟨u, here, denoted⟩ := List.mem_map.mp (complete _ (List.mem_map_of_mem there))
      exact ⟨u, here, denoted⟩

/-- A variable that a signal declares, and whether its builder keeps the model structure. -/
structure Declared where
  causality : String
  valueReference : String
  structured : Bool

def Declared.isOutput (d : Declared) : Bool := d.causality = "output"

def Declared.ofVariable (structured : Bool) (v : ScalarVariable) : Declared :=
  ⟨v.causality, v.valueReference, structured⟩

/-- The variable of a scalar or a string; the loop ends where its reference is missing. -/
def variableDeclared (structured : Bool) (signal : Signal) : Option (List Declared) :=
  match valueOf signal "fmi_variable_causality" with
  | some (.string causality) =>
      (valueOf signal "fmi_variable_vref").map fun vref =>
        [⟨causality, scalarVref vref, structured⟩]
  | _ => some []

/-- The variables of a bus; the loop ends where their references are missing. -/
def busDeclared (signal : Signal) : Option (List Declared) :=
  match vrefsOf signal "dse.standards.fmi-ls-bus-topology.rx_vref",
    vrefsOf signal "dse.standards.fmi-ls-bus-topology.tx_vref" with
  | some rx, some tx =>
      if rx.length ≠ tx.length then none
      else
        some ((rx.zip tx).flatMap fun pair =>
          [⟨"input", itoa pair.1, true⟩, ⟨"output", itoa pair.2, true⟩])
  | _, _ => none

def BuilderCall.declared : BuilderCall → List Declared
  | .scalarSignal signals => declaredBy (variableDeclared true) signals
  | .binarySignal signals => declaredBy busDeclared signals
  | .stringSignal signals => declaredBy (variableDeclared false) signals

/-- No output is a string, and the references of the outputs are their positions. -/
structure NumberedByPosition (index : IndexReading) (declared : List Declared) : Prop where
  structured : ∀ d ∈ declared, d.isOutput = true → d.structured = true
  references : ((declared.filter Declared.isOutput).map fun d => index.read d.valueReference).Perm
    ((positions Declared.isOutput declared).map some)

def Declared.listed (d : Declared) : Bool := d.structured && d.isOutput

/-- The variables are the declared ones; the model structure has the references of those that
it lists. -/
structure Shows (md : ModelDescription) (declared : List Declared) : Prop where
  causalities : md.scalarVariable.map ScalarVariable.causality = declared.map Declared.causality
  outputs : md.outputs = (declared.filter Declared.listed).map Declared.valueReference
  initialUnknowns : md.initialUnknowns = md.outputs

theorem shows_setGeneralFmuXmlFields (annotations : List (String × String)) :
    Shows (setGeneralFmuXmlFields annotations) [] := ⟨rfl, rfl, rfl⟩

section Calls

variable {md : ModelDescription} {declared : List Declared}

theorem Shows.addVariable (shown : Shows md declared) (v : ScalarVariable) :
    Shows (addVariable md v) (declared ++ [.ofVariable true v]) := by
  have causalities : (md.scalarVariable ++ [v]).map ScalarVariable.causality =
      (declared ++ [Declared.ofVariable true v]).map Declared.causality := by
    rw [List.map_append, List.map_append, shown.causalities]
    rfl
  rw [Fmi2.addVariable]
  by_cases output : v.causality = "output"
  · have listed : [Declared.ofVariable true v].filter Declared.listed = [.ofVariable true v] :=
      List.filter_cons_of_pos (decide_eq_true output)
    rw [if_pos output]
    refine ⟨causalities, ?_, ?_⟩
    · rw [List.filter_append, List.map_append, listed, ← shown.outputs]
      rfl
    · exact congrArg (· ++ [v.valueReference]) shown.initialUnknowns
  · have hidden : [Declared.ofVariable true v].filter Declared.listed = [] :=
      List.filter_cons_of_neg fun listed => output (of_decide_eq_true listed)
    rw [if_neg output]
    refine ⟨causalities, ?_, shown.initialUnknowns⟩
    rw [List.filter_append, hidden, List.append_nil]
    exact shown.outputs

theorem Shows.addVariables (shown : Shows md declared) (added : List ScalarVariable) :
    Shows (added.foldl Fmi2.addVariable md) (declared ++ added.map (.ofVariable true)) := by
  induction added generalizing md declared with
  | nil =>
      rw [List.map_nil, List.append_nil]
      exact shown
  | cons v added ih =>
      rw [List.map_cons, List.append_cons]
      exact ih (shown.addVariable v)

theorem Shows.appendVariables (shown : Shows md declared) (added : List ScalarVariable) :
    Shows { md with scalarVariable := md.scalarVariable ++ added }
      (declared ++ added.map (.ofVariable false)) := by
  have hidden : (added.map (Declared.ofVariable false)).filter Declared.listed = [] := by
    apply List.filter_eq_nil_iff.mpr
    intro d member
    obtain ⟨v, _, rfl⟩ := List.mem_map.mp member
    exact Bool.false_ne_true
  refine ⟨?_, ?_, shown.initialUnknowns⟩
  · rw [List.map_append, List.map_append, shown.causalities, List.map_map]
    rfl
  · rw [List.filter_append, hidden, List.append_nil]
    exact shown.outputs

theorem variableDeclared_of_causality {s : Signal} {structured : Bool} {causality : String}
    (stored : valueOf s "fmi_variable_causality" = some (.string causality)) :
    variableDeclared structured s =
      (valueOf s "fmi_variable_vref").map fun vref =>
        [⟨causality, scalarVref vref, structured⟩] := by
  rw [variableDeclared, stored]

theorem variableDeclared_of_none {s : Signal} {structured : Bool}
    (absent : valueOf s "fmi_variable_causality" = none) :
    variableDeclared structured s = some [] := by
  rw [variableDeclared, absent]

theorem scalarRound_declared {s : Signal} {round : Round ScalarVariable}
    (ran : scalarRound s = .ok round) :
    round.Declares (.ofVariable true) (variableDeclared true s) := by
  obtain ⟨causality, hcausality, ran⟩ := bind_eq_ok.mp ran
  have stored := annotation_eq_ok hcausality
  cases causality with
  | none =>
      cases ran
      exact variableDeclared_of_none stored
  | some value =>
      obtain ⟨causality, text, ran⟩ := bind_eq_ok.mp ran
      rw [asString_eq_ok text] at stored
      rw [variableDeclared_of_causality stored]
      obtain ⟨start, _, ran⟩ := bind_eq_ok.mp ran
      obtain ⟨vref, hvref, ran⟩ := bind_eq_ok.mp ran
      rw [annotation_eq_ok hvref]
      cases vref with
      | none =>
          cases ran
          rfl
      | some vref =>
          obtain ⟨annotations, _, ran⟩ := bind_eq_ok.mp ran
          cases ran
          rfl

theorem stringRound_declared {s : Signal} {round : Round ScalarVariable}
    (ran : stringRound s = .ok round) :
    round.Declares (.ofVariable false) (variableDeclared false s) := by
  obtain ⟨causality, hcausality, ran⟩ := bind_eq_ok.mp ran
  have stored := annotation_eq_ok hcausality
  cases causality with
  | none =>
      cases ran
      exact variableDeclared_of_none stored
  | some value =>
      obtain ⟨causality, text, ran⟩ := bind_eq_ok.mp ran
      rw [asString_eq_ok text] at stored
      rw [variableDeclared_of_causality stored]
      obtain ⟨given, _, ran⟩ := bind_eq_ok.mp ran
      obtain ⟨start, _, ran⟩ := bind_eq_ok.mp ran
      obtain ⟨vref, hvref, ran⟩ := bind_eq_ok.mp ran
      rw [annotation_eq_ok hvref]
      cases vref with
      | none =>
          cases ran
          rfl
      | some vref =>
          obtain ⟨n, number, ran⟩ := bind_eq_ok.mp ran
          rw [asInt_eq_ok number]
          obtain ⟨annotations, _, ran⟩ := bind_eq_ok.mp ran
          cases ran
          rfl

theorem buildBinarySignals_declared {s : Signal} {id : Nat} {vrefs : List (Int × Int)}
    {vars : List ScalarVariable}
    (ran : buildBinarySignals buildBinarySignal s id vrefs = .ok vars) :
    (vrefs.flatMap fun pair => [⟨"input", itoa pair.1, true⟩, ⟨"output", itoa pair.2, true⟩]) =
      vars.map (Declared.ofVariable true) := by
  induction vrefs generalizing id vars with
  | nil =>
      cases ran
      rfl
  | cons pair vrefs ih =>
      have built : ∀ {vref causality v}, buildBinarySignal s vref causality id = .ok v →
          Declared.ofVariable true v =
            ⟨if causality = "rx" then "input" else "output", itoa vref, true⟩ := by
        intro vref causality v ran
        obtain ⟨_, _, ran⟩ := bind_eq_ok.mp ran
        obtain ⟨_, _, ran⟩ := bind_eq_ok.mp ran
        obtain ⟨_, _, ran⟩ := bind_eq_ok.mp ran
        obtain ⟨_, _, ran⟩ := bind_eq_ok.mp ran
        obtain ⟨_, _, ran⟩ := bind_eq_ok.mp ran
        cases ran
        rfl
      obtain ⟨rx, hrx, ran⟩ := bind_eq_ok.mp ran
      obtain ⟨tx, htx, ran⟩ := bind_eq_ok.mp ran
      obtain ⟨rest, later, ran⟩ := bind_eq_ok.mp ran
      cases ran
      rw [List.flatMap_cons, ih later, List.map_cons, List.map_cons, built hrx, built htx]
      rfl

theorem busRound_declared {s : Signal} {round : Round ScalarVariable}
    (ran : busRound buildBinarySignal s = .ok round) :
    round.Declares (.ofVariable true) (busDeclared s) := by
  obtain ⟨rx, hrx, ran⟩ := bind_eq_ok.mp ran
  rw [busDeclared, busVrefs_eq_ok hrx]
  cases rx with
  | none =>
      cases ran
      rfl
  | some rx =>
      obtain ⟨tx, htx, ran⟩ := bind_eq_ok.mp ran
      rw [busVrefs_eq_ok htx]
      cases tx with
      | none =>
          cases ran
          rfl
      | some tx =>
          dsimp only at ran ⊢
          split at ran
          next mismatch =>
            cases ran
            exact if_pos mismatch
          next same =>
            obtain ⟨added, built, ran⟩ := bind_eq_ok.mp ran
            cases ran
            rw [if_neg same, buildBinarySignals_declared built]
            rfl

theorem Shows.run (shown : Shows md declared) {call : BuilderCall} {md' : ModelDescription}
    (ran : call.run md = .ok md') : Shows md' (declared ++ call.declared) := by
  cases call with
  | scalarSignal signals =>
      obtain ⟨_, built, ran⟩ := bind_eq_ok.mp ran
      cases ran
      obtain ⟨⟨added, error⟩, loop, built⟩ := bind_eq_ok.mp built
      cases built
      rw [BuilderCall.declared, eachSignal_declared (fun _ _ => scalarRound_declared) loop]
      exact shown.addVariables added
  | binarySignal signals =>
      obtain ⟨_, built, ran⟩ := bind_eq_ok.mp ran
      cases ran
      obtain ⟨⟨added, error⟩, loop, built⟩ := bind_eq_ok.mp built
      cases built
      rw [BuilderCall.declared, eachSignal_declared (fun _ _ => busRound_declared) loop]
      exact shown.addVariables added
  | stringSignal signals =>
      obtain ⟨_, built, ran⟩ := bind_eq_ok.mp ran
      cases ran
      obtain ⟨⟨added, error⟩, loop, built⟩ := bind_eq_ok.mp built
      cases built
      rw [BuilderCall.declared, eachSignal_declared (fun _ _ => stringRound_declared) loop]
      exact shown.appendVariables added

/-- A sequence of calls shows what its calls declare, in their order. -/
theorem Shows.runs (shown : Shows md declared) {calls : List BuilderCall} {md' : ModelDescription}
    (ran : calls.foldlM BuilderCall.run md = .ok md') :
    Shows md' (declared ++ calls.flatMap BuilderCall.declared) := by
  induction calls generalizing md declared with
  | nil =>
      cases ran
      rw [List.flatMap_nil, List.append_nil]
      exact shown
  | cons call calls ih =>
      rw [List.foldlM_cons] at ran
      obtain ⟨after, first, ran⟩ := bind_eq_ok.mp ran
      rw [List.flatMap_cons, ← List.append_assoc]
      exact ih (shown.run first) ran

theorem shows_describe {annotations : List (String × String)} {calls : List BuilderCall}
    (ran : describe annotations calls = .ok md) :
    Shows md (calls.flatMap BuilderCall.declared) :=
  (shows_setGeneralFmuXmlFields annotations).runs ran

end Calls

section Structure

variable {index : IndexReading} {md : ModelDescription} {declared : List Declared}

theorem filter_listed_of_structured
    (structured : ∀ d ∈ declared, d.isOutput = true → d.structured = true) :
    declared.filter Declared.listed = declared.filter Declared.isOutput := by
  apply List.filter_congr
  intro d member
  cases output : d.isOutput with
  | false => rw [Declared.listed, output, Bool.and_false]
  | true => rw [Declared.listed, output, structured d member output, Bool.and_self]

/-- As many outputs are listed as there are only if all of them are listed. -/
theorem structured_of_length
    (all : (declared.filter Declared.listed).length = (declared.filter Declared.isOutput).length) :
    ∀ d ∈ declared, d.isOutput = true → d.structured = true := by
  have listed : declared.filter Declared.listed = declared.filter Declared.isOutput := by
    refine List.Sublist.eq_of_length (List.monotone_filter_right declared ?_) all
    intro d listed
    exact (Bool.and_eq_true_iff.mp listed).2
  intro d member output
  have there : d ∈ declared.filter Declared.listed :=
    listed ▸ List.mem_filter.mpr ⟨member, output⟩
  exact (Bool.and_eq_true_iff.mp (List.mem_filter.mp there).2).1

theorem Shows.listed_iff (shown : Shows md declared) :
    OutputsListed index md ↔ NumberedByPosition index declared := by
  have outputs : positions ScalarVariable.isOutput md.scalarVariable =
      positions Declared.isOutput declared :=
    positions_congr (r := fun causality => causality = "output") shown.causalities
      (fun _ => rfl) (fun _ => rfl)
  have unknowns : md.initialUnknowns.map index.read = md.outputs.map index.read := by
    rw [shown.initialUnknowns]
  rw [outputsListed_iff_perm, and_iff_left unknowns, outputs, shown.outputs, List.map_map]
  constructor
  · intro references
    have structured := structured_of_length (by
      rw [← List.countP_eq_length_filter (p := Declared.isOutput), ← length_positions]
      simpa using references.length_eq)
    rw [filter_listed_of_structured structured] at references
    exact ⟨structured, references⟩
  · intro numbered
    rw [filter_listed_of_structured numbered.structured]
    exact numbered.references

/-- The model structure lists the positions of the outputs exactly when no output is a string
and the value references of the outputs are their positions. -/
theorem outputsListed_iff {annotations : List (String × String)} {calls : List BuilderCall}
    (ran : describe annotations calls = .ok md) :
    OutputsListed index md ↔ NumberedByPosition index (calls.flatMap BuilderCall.declared) :=
  (shows_describe ran).listed_iff

def outputSignal (name : String) (vref : Int) : Signal where
  signal := name
  annotations := some <|
    ((∅ : Annotations).insert "fmi_variable_causality" (.string "output")).insert
      "fmi_variable_vref" (.int vref)

theorem outputsListed_numbered :
    ∃ md, describe [] [.scalarSignal [outputSignal "scalar_out" 1]] = .ok md ∧
      (OutputsListed .decimal md ↔
        NumberedByPosition .decimal
          ([.scalarSignal [outputSignal "scalar_out" 1]].flatMap BuilderCall.declared)) := by
  obtain ⟨md, ran⟩ : ∃ md,
      describe [] [.scalarSignal [outputSignal "scalar_out" 1]] = .ok md := ⟨_, rfl⟩
  exact ⟨md, ran, outputsListed_iff ran⟩

/-- A scalar output at position 1 with the reference 1002 is listed as 1002, and a string
output with the reference 1 is not listed. -/
theorem outputsListed_not :
    ∃ scalar string, describe [] [.scalarSignal [outputSignal "scalar_out" 1002]] = .ok scalar ∧
      describe [] [.stringSignal [outputSignal "string_out" 1]] = .ok string ∧
        ∀ index, ¬ OutputsListed index scalar ∧ ¬ OutputsListed index string := by
  refine ⟨_, _, rfl, rfl, ?_⟩
  intro index
  constructor
  · intro listed
    obtain ⟨i, v, read, found, _⟩ := listed.denotes (Nat.repr 1002) (List.mem_singleton.mpr rfl)
    have position : 1002 = i + 1 := Option.some.inj ((index.read_repr 1002).symm.trans read)
    have inRange := (List.getElem?_eq_some_iff.mp found).1
    have only : i < 1 := inRange
    omega
  · intro listed
    obtain ⟨u, member, _⟩ := listed.complete 0 _ rfl rfl
    exact absurd member List.not_mem_nil

end Structure

end DseFmi.Generate.Fmi2
