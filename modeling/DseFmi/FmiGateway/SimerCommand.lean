import DseFmi.FmiGateway.ModelDescription
import DseFmi.FmiGateway.SessionWin32
import DseFmi.Fmu.RoundTrip

/-!
# The command of the runtime

The generator gives the selector the reference 0 and the command the reference 1, while
the session looks up the command under the key "0" and the selector under the key "1". It
finds neither of them and runs the first command of the model description.
-/

namespace DseFmi.FmiGateway

open DseFmi.Fmu DseFmi.Generate DseFmi.Library

/-- The annotations of the model description, in its order. -/
def annotationsOf (args : Arguments) : List (String × String) :=
  match args.annotation with
  | .ok user =>
      let runtime := (newFmiGatewayCommand.createRuntime "simer").annotations
      args.mapOrder.order (mapEntries (mergeAnnotations runtime user))
  | .error _ => []

def commandsOf (args : Arguments) : List CString :=
  parseCmds (runtimeName .simer) (annotationsOf args)

theorem mem_mergeAnnotations {annotations : AList fun _ : String => String} {k : String}
    (member : k ∈ annotations) (user : AList fun _ : String => String) :
    k ∈ mergeAnnotations annotations user := by
  unfold mergeAnnotations
  induction user.entries generalizing annotations with
  | nil => exact member
  | cons entry entries ih => exact ih (AList.mem_insert _ |>.mpr (.inr member))

/-- The annotations of the user may replace the command of the runtime, but not remove it. -/
theorem commandsOf_ne_nil {args : Arguments} {user : AList fun _ : String => String}
    (read : args.annotation = .ok user) : commandsOf args ≠ [] := by
  let runtime := (newFmiGatewayCommand.createRuntime "simer").annotations
  let cmd := "dse.fmi.gateway.simer.cmd.0"
  have kept : cmd ∈ mergeAnnotations runtime user := mem_mergeAnnotations (by decide) user
  obtain ⟨text, entry⟩ := List.exists_of_mem_keys kept
  have listed : (cmd, text) ∈ mapEntries (mergeAnnotations runtime user) :=
    List.mem_map.mpr ⟨⟨cmd, text⟩, entry, rfl⟩
  have ordered : (cmd, text) ∈ annotationsOf args := by
    rw [annotationsOf, read]
    exact (args.mapOrder.perm _).mem_iff.mpr listed
  have selected : ("dse.fmi.gateway." ++ runtimeName .simer ++ ".cmd.").toList.isPrefixOf
      cmd.toList = true := by decide
  apply List.ne_nil_of_mem
  exact List.mem_map.mpr ⟨(cmd, text), List.mem_filter.mpr ⟨ordered, selected⟩, rfl⟩

/-- The model description describes the parameters that were collected. -/
theorem generate_described {args : Arguments} (simer : args.runtime = "simer") {xml : FmuXml}
    {channels : List String} (ran : generate args = .ok (xml, channels)) :
    ∃ c, SimerCollected c ∧ DocumentOf c (annotationsOf args) xml ∧ commandsOf args ≠ [] := by
  obtain ⟨c, user, collected, read, listed⟩ := generate_listed ran
  have first : SimerCollected (newFmiGatewayCommand.createRuntime args.runtime) := by
    rw [simer]
    exact simerCollected_createRuntime
  have parameters := simerCollected_collected.collectParameters first collected
  have annotations : annotationsOf args =
      args.mapOrder.order (mapEntries (mergeAnnotations c.annotations user)) := by
    rw [annotationsOf, read, parameters.annotations]
  refine ⟨c, parameters, ?_, commandsOf_ne_nil read⟩
  rw [annotations]
  exact listed.documentOf

theorem vrefText_parameter (name : String) (vref : Nat) (start : Option String)
    (key : String) : vrefText (parameter name vref start key) = Nat.repr vref := by
  obtain ⟨anns, ready⟩ := parameter_ready name vref start key
  exact ready.vrefText_eq

/-- The keys of the session are no references of the parameters it reads. -/
theorem DocumentOf.noParameter {c : Gateway} {annotations : List (String × String)} {xml : FmuXml}
    (document : DocumentOf c annotations xml) (collected : SimerCollected c) :
    NoParameter "0" "1" xml := by
  have distinct : ∀ {n m : Nat}, n ≠ m → Nat.repr n ≠ Nat.repr m := fun different same =>
    different (Nat.repr_injective same)
  refine ⟨fun p member => ?_, fun p member annotated => ?_⟩
  · obtain ⟨s, listed, describes⟩ := document.string.sound p member
    obtain ⟨name, vref, start, key, other, rfl⟩ := collected.string s listed
    rw [describes.valueReference, vrefText_parameter]
    exact distinct other
  · obtain ⟨reals, grouped, parameters, described, bare⟩ := document.real
    rw [parameters] at member
    cases List.mem_append.mp member with
    | inl collected_real =>
        obtain ⟨s, listed, describes⟩ := described.sound p collected_real
        obtain ⟨name, vref, start, key, other, rfl⟩ := collected.real s listed
        rw [describes.valueReference, vrefText_parameter]
        exact distinct other
    | inr of_group => exact absurd (bare p of_group) annotated

/-- A parameter of the model description, by its name and its value reference. -/
def IsParameter (type : ParameterType) (name : String) (vr : UInt32) (xml : FmuXml) : Prop :=
  ∃ p ∈ xmlParameters type xml, p.name = name ∧ p.valueReference = Nat.repr vr.toNat

/-- The command the values ask for: the text, or else the selected one if there is one. -/
def wantedCmd (cmds : List CString) (values : CommandValues) : Option CString :=
  if values.command.bytes ≠ [] then some values.command
  else if nonNegative values.selector then cmds[toSize values.selector]?
  else none

def RunsWanted (i : Instance) (cmds : List CString) (values : CommandValues) : Prop :=
  ∀ cmd ∈ wantedCmd cmds values, fmigatewaySessionStart i = some (simerExe ++ cmd.bytes)

/-- The command that is asked for is the first of the model description, as far as it fits
the command line. -/
def FirstIsWanted (args : Arguments) (values : CommandValues) : Prop :=
  ∀ cmd ∈ wantedCmd (commandsOf args) values,
    parseRuntimeType (annotationsOf args) = .simer ∧
      (commandsOf args).head?.map (fun first => first.bytes.take 2037) = some cmd.bytes

theorem simer_parameters {c : Gateway} {annotations : List (String × String)} {xml : FmuXml}
    (document : DocumentOf c annotations xml) (collected : SimerCollected c) :
    IsParameter .string "Simer_Command" 1 xml ∧
      IsParameter .real "Simer_Command_Selector" 0 xml := by
  constructor
  · obtain ⟨p, member, describes⟩ := document.string.complete _ collected.command
    exact ⟨p, member, describes.name, describes.valueReference⟩
  · obtain ⟨reals, grouped, parameters, described, _⟩ := document.real
    obtain ⟨p, member, describes⟩ := described.complete _ collected.selector
    refine ⟨p, ?_, describes.name, describes.valueReference⟩
    rw [parameters]
    exact List.mem_append_left _ member

/-- No string is set under the key that the session looks up. -/
theorem IsParameter.vrIdx_ne {name : String} {vr : UInt32} {xml : FmuXml}
    (parameter : IsParameter .string name vr xml) (free : NoParameter "0" "1" xml) :
    vrIdx vr ≠ "0" := by
  obtain ⟨p, member, _, reference⟩ := parameter
  have other : Nat.repr vr.toNat ≠ Nat.repr 0 := by
    rw [← reference]
    exact free.string p member
  by_cases small : vr.toNat < 2 ^ 31
  · rw [vrIdx_of_lt small]
    exact other
  · exact vrIdx_ne_repr small 0

theorem take_simerExe (text : List UInt8) :
    (simerExe ++ text).take (maxCmdLength - 1) = simerExe ++ text.take 2037 := by
  rw [List.take_append, List.take_of_length_le (by decide)]
  rfl

/-- The session runs a command exactly when it is the first one of the runtime. -/
theorem fmigatewaySessionStart_iff {i : Instance} (missing : Missing "0" "1" i.fmu)
    {type : FmiGatewayRuntimeType} {cmds : List CString} (some_command : cmds ≠ [])
    (settings : i.settings = ⟨type, if type = .legacy then [] else cmds⟩) (text : List UInt8) :
    fmigatewaySessionStart i = some (simerExe ++ text) ↔
      type = .simer ∧ cmds.head?.map (fun first => first.bytes.take 2037) = some text := by
  rw [fmigatewaySessionStart, fmigatewayRunSimer, simerCmd_of_missing missing, take_simerExe,
    settings]
  cases type with
  | legacy => exact ⟨(nomatch ·), fun both => nomatch both.1⟩
  | simer =>
      obtain ⟨first, rest, rfl⟩ := List.exists_cons_of_ne_nil some_command
      show some (simerExe ++ first.bytes.take 2037) = _ ↔ _ ∧ some (first.bytes.take 2037) = _
      simp

/-- Whatever the importer sets, the session of a generated FMU runs the first command of the
model description. -/
theorem initialised_iff {args : Arguments} (simer : args.runtime = "simer") {xml : FmuXml}
    {channels : List String} (ran : generate args = .ok (xml, channels)) {command : UInt32}
    (isCommand : IsParameter .string "Simer_Command" command xml) (selector : UInt32)
    (lib : CLib) (strtod : String → Double) (calls : List ParameterCall) (text : List UInt8) :
    fmigatewaySessionStart (initialised lib strtod xml command selector calls) =
        some (simerExe ++ text) ↔
      parseRuntimeType (annotationsOf args) = .simer ∧
        (commandsOf args).head?.map (fun first => first.bytes.take 2037) = some text := by
  obtain ⟨c, collected, document, some_command⟩ := generate_described simer ran
  have free := document.noParameter collected
  have missing : Missing "0" "1" (initialised lib strtod xml command selector calls).fmu := by
    apply Missing.foldl _ _ (free.fmigatewayParseXml strtod)
    intro fmu call _ before
    exact before.run lib xml (isCommand.vrIdx_ne free) selector call
  have settings := settings_fmigatewayParseXml strtod xml
  rw [document.annotations] at settings
  apply fmigatewaySessionStart_iff missing some_command
  refine settings.trans ?_
  cases parseRuntimeType (annotationsOf args) with
  | legacy => rfl
  | simer => rfl

/-- The session of a generated FMU runs the command that the importer asks for exactly when
this is the first one of the model description. -/
theorem simerCommand_iff (strtod : String → Double) {args : Arguments}
    (simer : args.runtime = "simer") {xml : FmuXml} {channels : List String}
    (ran : generate args = .ok (xml, channels)) :
    (∃ command selector, IsParameter .string "Simer_Command" command xml ∧
      IsParameter .real "Simer_Command_Selector" selector xml) ∧
    ∀ command selector, IsParameter .string "Simer_Command" command xml →
      IsParameter .real "Simer_Command_Selector" selector xml →
      ∀ (lib : CLib) (calls : List ParameterCall),
        let values := calls.foldl ParameterCall.record .start
        RunsWanted (initialised lib strtod xml command selector calls) (commandsOf args) values ↔
          FirstIsWanted args values := by
  obtain ⟨c, collected, document, _⟩ := generate_described simer ran
  refine ⟨⟨1, 0, simer_parameters document collected⟩, ?_⟩
  intro command selector isCommand _ lib calls
  apply forall₂_congr
  intro cmd _
  exact initialised_iff simer ran isCommand selector lib strtod calls cmd.bytes

/-- A run for the runtime `simer` without signals and without annotations of the user. -/
def simerOnly (fmiVersion : String) : Arguments where
  name := "fmugw"
  runtime := "simer"
  fmiVersion
  stack := none
  parameters := none
  signalGroups := []
  annotation := .ok ∅
  mapOrder := ⟨id, perm_id⟩

/-- The selector that stays 0 selects the first command, which is run. -/
theorem simerCommand_selector :
    ∃ xml channels, generate (simerOnly "2") = .ok (xml, channels) ∧
      ∀ lib, RunsWanted (initialised lib (fun _ => 0) xml 1 0 [.selector 0])
        (commandsOf (simerOnly "2")) .start := by
  obtain ⟨⟨xml, channels⟩, ran⟩ : ∃ result, generate (simerOnly "2") = .ok result := ⟨_, rfl⟩
  have simer : (simerOnly "2").runtime = "simer" := rfl
  have parameters := simerCommand_iff (fun _ => 0) simer ran
  refine ⟨xml, channels, ran, fun lib => ?_⟩
  cases ran
  apply (parameters.2 1 0 ⟨_, List.mem_cons_self, rfl, rfl⟩ ⟨_, List.mem_cons_self, rfl, rfl⟩
    lib [.selector 0]).mpr
  rintro cmd ⟨⟩
  decide

/-- A command that the importer sets is not run. -/
theorem simerCommand_not_run :
    ∃ xml channels, generate (simerOnly "2") = .ok (xml, channels) ∧
      IsParameter .string "Simer_Command" 1 xml ∧
      IsParameter .real "Simer_Command_Selector" 0 xml ∧
      ∀ lib strtod,
        let i := initialised lib strtod xml 1 0 [.command (cString "-endtime 1"), .selector 0]
        fmigatewaySessionStart i = some (utf8 "simer.exe -logger 6 -endtime 9999999") ∧
          ¬ RunsWanted i (commandsOf (simerOnly "2")) ⟨cString "-endtime 1", 0⟩ := by
  refine ⟨_, _, rfl, ⟨_, List.mem_cons_self, rfl, rfl⟩, ⟨_, List.mem_cons_self, rfl, rfl⟩, ?_⟩
  intro lib strtod i
  have started : fmigatewaySessionStart i = some (utf8 "simer.exe -logger 6 -endtime 9999999") :=
    rfl
  refine ⟨started, fun runs => ?_⟩
  have wanted := runs (cString "-endtime 1") rfl
  rw [started] at wanted
  exact absurd wanted (by decide)

end DseFmi.FmiGateway
