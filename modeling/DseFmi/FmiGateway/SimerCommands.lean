import DseFmi.FmiGateway.SimerCommand
import DseFmi.Library.KeyedList

/-!
# Commands the user numbers

The user may give several commands, numbered by the suffixes of their keys. The generator
writes them in the order of an iteration over a map and the gateway reads them in that
order; the session runs the first one, whichever number is selected.
-/

namespace DseFmi.FmiGateway

open DseFmi.Fmu DseFmi.Generate DseFmi.Library

theorem lookup_mergeAnnotations (annotations user : AList fun _ : String => String)
    (k : String) :
    (mergeAnnotations annotations user).lookup k = (user.lookup k).or (annotations.lookup k) := by
  have distinct : (user.entries.map Sigma.fst).Nodup := user.nodupKeys
  cases given : user.lookup k with
  | none =>
      have other : k ∉ user.entries.map Sigma.fst := AList.lookup_eq_none.mp given
      exact lookup_foldl_insert_of_not_mem (fun entry => entry.2) other annotations
  | some text =>
      have member : (⟨k, text⟩ : Sigma fun _ : String => String) ∈ user.entries :=
        AList.mem_lookup_iff.mp given
      exact lookup_foldl_insert_of_mem (fun entry => entry.2) distinct member annotations

/-- The order of an iteration does not matter for the entry under a key. -/
theorem find?_order (mapOrder : MapOrder) (annotations : AList fun _ : String => String)
    (k : String) :
    (mapOrder.order (mapEntries annotations)).find? (fun annotation => annotation.1 = k) =
      (annotations.lookup k).map (k, ·) := by
  have perm := mapOrder.perm (mapEntries annotations)
  have listed : (mapEntries annotations).map Prod.fst = annotations.keys := by
    rw [mapEntries, List.map_map]
    rfl
  have distinct : ((mapOrder.order (mapEntries annotations)).map Prod.fst).Nodup := by
    rw [(perm.map Prod.fst).nodup_iff, listed]
    exact annotations.nodupKeys
  cases stored : annotations.lookup k with
  | none =>
      apply List.find?_eq_none.mpr
      intro annotation member same
      have fresh : k ∉ annotations.keys := AList.lookup_eq_none.mp stored
      rw [← listed, ← (perm.map Prod.fst).mem_iff] at fresh
      exact fresh (of_decide_eq_true same ▸ List.mem_map_of_mem member)
  | some text =>
      apply (find?_key_eq_some_iff distinct).mpr
      refine ⟨perm.mem_iff.mpr ?_, rfl⟩
      exact List.mem_map.mpr ⟨⟨k, text⟩, AList.mem_lookup_iff.mp stored, rfl⟩

def cmdKey (k : Nat) : String := "dse.fmi.gateway.simer.cmd." ++ Nat.repr k

def Selects (x : Double) (k : Nat) : Prop := nonNegative x = true ∧ toSize x = k

/-- The annotations of the user leave the runtime as it is. -/
def RuntimeKept (user : AList fun _ : String => String) : Prop :=
  ∀ text ∈ user.lookup "dse.fmi.gateway.runtime", xmlText text = "simer"

/-- The text of the first command in the order of the iteration over the annotations. -/
def firstCommand (args : Arguments) : Option String :=
  let key := "dse.fmi.gateway.simer.cmd.".toList
  ((annotationsOf args).find? fun annotation => key.isPrefixOf annotation.1.toList).map Prod.snd

/-- The first command, as it is read back and fits the command line, is the given text. -/
def FirstCommandIs (args : Arguments) (text : String) : Prop :=
  ∀ first ∈ firstCommand args, (cString (xmlText first)).bytes.take 2037 = utf8 text

/-- The session runs the command with the number that is selected, for the numbers up to
the last one. -/
def RunsSelected (lib : CLib) (strtod : String → Double) (xml : FmuXml)
    (command selector : UInt32) (user : AList fun _ : String => String) (last : Nat) : Prop :=
  ∀ k ≤ last, ∀ text ∈ user.lookup (cmdKey k), ∀ calls : List ParameterCall,
    let values := calls.foldl ParameterCall.record .start
    values.command.bytes = [] → Selects values.selector k →
      fmigatewaySessionStart (initialised lib strtod xml command selector calls) =
        some (simerExe ++ utf8 text)

theorem parseRuntimeType_eq_simer {args : Arguments} {user : AList fun _ : String => String}
    (read : args.annotation = .ok user) :
    parseRuntimeType (annotationsOf args) = .simer ↔ RuntimeKept user := by
  have own : (newFmiGatewayCommand.createRuntime "simer").annotations.lookup
      "dse.fmi.gateway.runtime" = some "simer" := by decide
  unfold parseRuntimeType RuntimeKept
  rw [annotationsOf, read]
  dsimp only
  rw [find?_order, lookup_mergeAnnotations, own]
  cases user.lookup "dse.fmi.gateway.runtime" with
  | none =>
      constructor
      · intro _ _ absent
        cases absent
      · exact fun _ => if_pos (by decide)
  | some text =>
      constructor
      · rintro same _ ⟨⟩
        by_contra changed
        cases (if_neg changed).symm.trans same
      · intro kept
        exact if_pos (kept text rfl)

/-- The commands are those of the annotations, the first one in front. -/
theorem head?_commandsOf (args : Arguments) :
    (commandsOf args).head? = (firstCommand args).map fun first => cString (xmlText first) := by
  have name : ("dse.fmi.gateway." ++ runtimeName .simer ++ ".cmd.").toList =
      "dse.fmi.gateway.simer.cmd.".toList := by decide
  rw [commandsOf, parseCmds, List.head?_map, List.head?_filter, name, firstCommand,
    Option.map_map]
  rfl

theorem firstCommandIs_iff {args : Arguments} {user : AList fun _ : String => String}
    (read : args.annotation = .ok user) (text : String) :
    (commandsOf args).head?.map (fun first => first.bytes.take 2037) = some (utf8 text) ↔
      FirstCommandIs args text := by
  have some_command : (commandsOf args).head? ≠ none :=
    fun absent => commandsOf_ne_nil read (List.head?_eq_none_iff.mp absent)
  rw [head?_commandsOf] at some_command ⊢
  rw [FirstCommandIs]
  cases listed : firstCommand args with
  | none =>
      rw [listed] at some_command
      exact absurd rfl some_command
  | some first =>
      constructor
      · rintro same _ ⟨⟩
        exact Option.some.inj same
      · intro first_is
        exact congrArg some (first_is first rfl)

/-- A generated FMU runs the command that is selected exactly when the user left the runtime
and the first of all commands has the text of each number that can be selected. -/
theorem simerCommands_iff (strtod : String → Double) {args : Arguments}
    (simer : args.runtime = "simer") {xml : FmuXml} {channels : List String}
    (ran : generate args = .ok (xml, channels)) {user : AList fun _ : String => String}
    (read : args.annotation = .ok user) {last : Nat} (given : ∀ k ≤ last, cmdKey k ∈ user) :
    (∃ command selector, IsParameter .string "Simer_Command" command xml ∧
      IsParameter .real "Simer_Command_Selector" selector xml) ∧
    ∀ command selector, IsParameter .string "Simer_Command" command xml →
      IsParameter .real "Simer_Command_Selector" selector xml → ∀ lib : CLib,
        RunsSelected lib strtod xml command selector user last ↔
          RuntimeKept user ∧ ∀ k ≤ last, (∃ x, Selects x k) →
            ∀ text ∈ user.lookup (cmdKey k), FirstCommandIs args text := by
  obtain ⟨c, collected, document, _⟩ := generate_described simer ran
  refine ⟨⟨1, 0, simer_parameters document collected⟩, ?_⟩
  intro command selector isCommand _ lib
  have started (text : String) (calls : List ParameterCall) :
      fmigatewaySessionStart (initialised lib strtod xml command selector calls) =
          some (simerExe ++ utf8 text) ↔
        RuntimeKept user ∧ FirstCommandIs args text := by
    rw [initialised_iff simer ran isCommand, parseRuntimeType_eq_simer read,
      firstCommandIs_iff read]
  constructor
  · intro runs
    refine ⟨?_, ?_⟩
    · -- the selector that stays 0 selects the number 0
      obtain ⟨text, stored⟩ := Option.isSome_iff_exists.mp
        (AList.lookup_isSome.mpr (given 0 (Nat.zero_le last)))
      have selects : Selects CommandValues.start.selector 0 := ⟨by decide, by decide⟩
      exact ((started text []).mp (runs 0 (Nat.zero_le last) text stored [] rfl selects)).1
    · rintro k small ⟨x, selects⟩ text stored
      exact ((started text [.selector x]).mp
        (runs k small text stored [.selector x] rfl selects)).2
  · rintro ⟨kept, first⟩ k small text stored calls values empty selects
    exact (started text calls).mpr ⟨kept, first k small ⟨_, selects⟩ text stored⟩

/-- A run for the runtime `simer` with annotations of the user. -/
def simerAnnotated (fmiVersion : String) (user : AList fun _ : String => String) : Arguments :=
  { simerOnly fmiVersion with annotation := .ok user }

/-- Two commands with the same text are run when they are selected. -/
theorem simerCommands_same :
    let user := (AList.singleton (cmdKey 0) "-a").insert (cmdKey 1) "-a"
    ∃ xml channels, generate (simerAnnotated "2" user) = .ok (xml, channels) ∧
      ∀ lib, RunsSelected lib (fun _ => 0) xml 1 0 user 1 := by
  intro user
  let args := simerAnnotated "2" user
  obtain ⟨⟨xml, channels⟩, ran⟩ : ∃ result, generate args = .ok result := ⟨_, rfl⟩
  obtain ⟨c, collected, document, _⟩ := generate_described rfl ran
  obtain ⟨isCommand, isSelector⟩ := simer_parameters document collected
  have text_of : ∀ k ≤ 1, user.lookup (cmdKey k) = some "-a" := by
    intro k small
    cases Nat.le_one_iff_eq_zero_or_eq_one.mp small with
    | inl first =>
        rw [first]
        decide
    | inr second =>
        rw [second]
        decide
  have given : ∀ k ≤ 1, cmdKey k ∈ user := by
    intro k small
    apply AList.lookup_isSome.mp
    rw [text_of k small]
    rfl
  have commands := simerCommands_iff (fun _ => 0) rfl ran rfl given
  refine ⟨xml, channels, ran, fun lib => ?_⟩
  apply (commands.2 1 0 isCommand isSelector lib).mpr
  have unset : user.lookup "dse.fmi.gateway.runtime" = none := by decide
  have listed : firstCommand args = some "-a" := by decide
  constructor
  · intro text stored
    cases unset.symm.trans stored
  · intro k small _ text stored first is_first
    cases (text_of k small).symm.trans stored
    cases listed.symm.trans is_first
    decide

/-- Of two commands the second one is not run when it is selected. -/
theorem simerCommands_not_run :
    ∃ user xml channels, generate (simerAnnotated "2" user) = .ok (xml, channels) ∧
      user.lookup (cmdKey 0) = some "-a" ∧ user.lookup (cmdKey 1) = some "-b" ∧
      IsParameter .string "Simer_Command" 1 xml ∧
      IsParameter .real "Simer_Command_Selector" 0 xml ∧
      ∀ lib strtod, ¬ RunsSelected lib strtod xml 1 0 user 1 := by
  let first : AList fun _ : String => String := AList.singleton (cmdKey 0) "-a"
  let user := first.insert (cmdKey 1) "-b"
  let args := simerAnnotated "2" user
  obtain ⟨⟨xml, channels⟩, ran⟩ : ∃ result, generate args = .ok result := ⟨_, rfl⟩
  obtain ⟨c, collected, document, _⟩ := generate_described rfl ran
  obtain ⟨isCommand, isSelector⟩ := simer_parameters document collected
  refine ⟨user, xml, channels, ran, by decide, by decide, isCommand, isSelector, ?_⟩
  intro lib strtod runs
  have selected := runs 1 (Nat.le_refl 1) "-b" (by decide) [.selector 0x3FF0000000000000] rfl
    ⟨by decide, by decide⟩
  have first_is := ((initialised_iff rfl ran isCommand _ _ _ _ _).mp selected).2
  exact absurd first_is (by decide)

end DseFmi.FmiGateway
