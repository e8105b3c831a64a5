import DseFmi.FmiGateway.SessionCleanup

/-!
# What the commands of a session see

Every command gets the parameters of the scripts in its environment. A variable that is set
outside the FMU is kept. On Unix a gateway takes its own earlier export for such a variable;
on Windows it exports every time anew.
-/

namespace DseFmi.FmiGateway

open DseFmi.Fmu DseFmi.Generate

def Sets (platform : Platform) (e : FmiGatewayParameter) (k : String) : Prop :=
  ValidName e.name ∧ platform.key e.name = k

instance (platform : Platform) (e : FmiGatewayParameter) (k : String) :
    Decidable (Sets platform e k) := inferInstanceAs (Decidable (_ ∧ _))

/-- The parameter that sets a variable: the first one on Unix, the last one on Windows. -/
def exporter (platform : Platform) (envar : List FmiGatewayParameter) (k : String) :
    Option FmiGatewayParameter :=
  match platform with
  | .unix => envar.find? fun e => Sets platform e k
  | .win32 _ => envar.reverse.find? fun e => Sets platform e k

theorem exporter_unix_cons (e : FmiGatewayParameter) (envar : List FmiGatewayParameter)
    (k : String) :
    exporter .unix (e :: envar) k =
      if Sets .unix e k then some e else exporter .unix envar k := by
  simp only [exporter, List.find?_cons]
  split
  next sets =>
    exact (if_pos (of_decide_eq_true sets)).symm
  next other =>
    exact (if_neg (of_decide_eq_false other)).symm

theorem exporter_win32_cons (upcase : String → String) (e : FmiGatewayParameter)
    (envar : List FmiGatewayParameter) (k : String) :
    exporter (.win32 upcase) (e :: envar) k =
      (exporter (.win32 upcase) envar k).or
        (if Sets (.win32 upcase) e k then some e else none) := by
  simp only [exporter, List.reverse_cons, List.find?_append, List.find?_singleton]
  congr 1
  simp

section SetEnvar

variable {fmu : FmuInstanceData} {environ : Environ}

theorem setEnvarRound_of_none {platform : Platform} {e : FmiGatewayParameter}
    (unset : getenv platform environ e.name = none) :
    setEnvarRound platform fmu environ e =
      fmigatewaySetenv platform environ e.name (envText fmu e) := by
  rw [setEnvarRound, unset]

theorem setEnvarRound_of_some {platform : Platform} {e : FmiGatewayParameter} {value : CString}
    (set : getenv platform environ e.name = some value) :
    setEnvarRound platform fmu environ e = environ := by
  rw [setEnvarRound, set]

/-- On Unix both views of the environment agree. -/
def Environ.Synced (environ : Environ) : Prop :=
  ∀ k, environ.own.lookup k = environ.inherited.lookup k

theorem fmigatewaySetenv_unix {name : String} (valid : ValidName name) (value : CString) :
    fmigatewaySetenv .unix environ name value =
      ⟨environ.own.insert name value, environ.inherited.insert name value⟩ := by
  rw [fmigatewaySetenv, if_pos valid]
  rfl

theorem fmigatewaySetenv_win32 (upcase : String → String) {name : String}
    (valid : ValidName name) (value : CString) :
    fmigatewaySetenv (.win32 upcase) environ name value =
      ⟨environ.own, environ.inherited.insert (upcase name) value⟩ := by
  rw [fmigatewaySetenv, if_pos valid]
  rfl

theorem fmigatewaySetenv_invalid (platform : Platform) {name : String}
    (invalid : ¬ ValidName name) (value : CString) :
    fmigatewaySetenv platform environ name value = environ :=
  if_neg invalid

theorem setEnvarRound_unix (fmu : FmuInstanceData) (synced : environ.Synced)
    (e : FmiGatewayParameter) :
    (setEnvarRound .unix fmu environ e).Synced ∧ ∀ k,
      (setEnvarRound .unix fmu environ e).inherited.lookup k =
        (environ.inherited.lookup k).or
          (if Sets .unix e k then some (envText fmu e) else none) := by
  cases stored : getenv .unix environ e.name with
  | some value =>
      rw [setEnvarRound_of_some stored]
      refine ⟨synced, fun k => ?_⟩
      split
      next sets =>
        have kept : environ.inherited.lookup k = some value := by
          rw [← synced k, ← sets.2]
          exact stored
        rw [kept]
        rfl
      · exact (Option.or_none ..).symm
  | none =>
      rw [setEnvarRound_of_none stored]
      by_cases valid : ValidName e.name
      · rw [fmigatewaySetenv_unix valid]
        refine ⟨fun k => ?_, fun k => ?_⟩
        · by_cases same : k = e.name
          · rw [same]
            show (environ.own.insert e.name (envText fmu e)).lookup e.name =
              (environ.inherited.insert e.name (envText fmu e)).lookup e.name
            rw [AList.lookup_insert, AList.lookup_insert]
          · exact (AList.lookup_insert_ne same).trans
              ((synced k).trans (AList.lookup_insert_ne same).symm)
        · by_cases same : e.name = k
          · subst same
            have fresh : environ.inherited.lookup e.name = none := by
              rw [← synced e.name]
              exact stored
            rw [if_pos ⟨valid, rfl⟩, fresh]
            exact AList.lookup_insert _
          · rw [if_neg fun sets => same sets.2, Option.or_none]
            exact AList.lookup_insert_ne (Ne.symm same)
      · rw [fmigatewaySetenv_invalid .unix valid]
        refine ⟨synced, fun k => ?_⟩
        rw [if_neg fun sets => valid sets.1, Option.or_none]

/-- On Unix the first parameter sets a variable, unless it is set already. -/
theorem setEnvar_unix (fmu : FmuInstanceData) (envar : List FmiGatewayParameter)
    (synced : environ.Synced) :
    (setEnvar .unix fmu envar environ).Synced ∧ ∀ k,
      (setEnvar .unix fmu envar environ).inherited.lookup k =
        (environ.inherited.lookup k).or ((exporter .unix envar k).map (envText fmu)) := by
  induction envar generalizing environ with
  | nil => exact ⟨synced, fun k => (Option.or_none ..).symm⟩
  | cons e envar ih =>
      obtain ⟨synced₁, round⟩ := setEnvarRound_unix fmu synced e
      obtain ⟨synced₂, rest⟩ := ih synced₁
      refine ⟨synced₂, fun k => (rest k).trans ?_⟩
      rw [round k, Option.or_assoc, exporter_unix_cons]
      split
      · rfl
      · rfl

theorem setEnvarRound_win32 (fmu : FmuInstanceData) (environ : Environ) (upcase : String → String)
    (e : FmiGatewayParameter) :
    (setEnvarRound (.win32 upcase) fmu environ e).own = environ.own ∧
      ∀ k, (setEnvarRound (.win32 upcase) fmu environ e).inherited.lookup k =
        if environ.own.lookup k = none then
          (if Sets (.win32 upcase) e k then some (envText fmu e) else none).or
            (environ.inherited.lookup k)
        else environ.inherited.lookup k := by
  cases stored : getenv (.win32 upcase) environ e.name with
  | some value =>
      rw [setEnvarRound_of_some stored]
      refine ⟨rfl, fun k => ?_⟩
      split
      next fresh =>
        rw [if_neg]
        · rfl
        · rintro ⟨_, rfl⟩
          cases stored.symm.trans fresh
      · rfl
  | none =>
      rw [setEnvarRound_of_none stored]
      by_cases valid : ValidName e.name
      · rw [fmigatewaySetenv_win32 upcase valid]
        refine ⟨rfl, fun k => ?_⟩
        by_cases same : upcase e.name = k
        · subst same
          have fresh : environ.own.lookup (upcase e.name) = none := stored
          rw [if_pos fresh, if_pos ⟨valid, rfl⟩]
          exact AList.lookup_insert _
        · have other : ¬ Sets (.win32 upcase) e k := fun sets => same sets.2
          rw [if_neg other, Option.none_or, ite_self]
          exact AList.lookup_insert_ne (Ne.symm same)
      · rw [fmigatewaySetenv_invalid (.win32 upcase) valid]
        refine ⟨rfl, fun k => ?_⟩
        have other : ¬ Sets (.win32 upcase) e k := fun sets => valid sets.1
        rw [if_neg other, Option.none_or, ite_self]

/-- On Windows the last parameter sets a variable that is not set outside, every time. -/
theorem setEnvar_win32 (fmu : FmuInstanceData) (environ : Environ) (upcase : String → String)
    (envar : List FmiGatewayParameter) :
    (setEnvar (.win32 upcase) fmu envar environ).own = environ.own ∧
      ∀ k, (setEnvar (.win32 upcase) fmu envar environ).inherited.lookup k =
        if environ.own.lookup k = none then
          ((exporter (.win32 upcase) envar k).map (envText fmu)).or (environ.inherited.lookup k)
        else environ.inherited.lookup k := by
  induction envar generalizing environ with
  | nil => exact ⟨rfl, fun _ => (ite_self _).symm⟩
  | cons e envar ih =>
      obtain ⟨own, round⟩ := setEnvarRound_win32 fmu environ upcase e
      obtain ⟨own', rest⟩ := ih (setEnvarRound (.win32 upcase) fmu environ e)
      refine ⟨own'.trans own, fun k => (rest k).trans ?_⟩
      rw [own, round k]
      split
      · rw [exporter_win32_cons, ← Option.or_assoc]
        cases exporter (.win32 upcase) envar k with
        | some first => rfl
        | none =>
            split
            · rfl
            · rfl
      · rfl

end SetEnvar

def afterExports (platform : Platform) (envar : List FmiGatewayParameter)
    (outside : HashMap CString) (fmus : List FmuInstanceData) : Environ :=
  fmus.foldl (fun environ fmu => setEnvar platform fmu envar environ) ⟨outside, outside⟩

/-- The values of the FMU that a command sees: those of the first command on Unix, those of
the moment on Windows. -/
def exportMoment (platform : Platform) (fmus : List FmuInstanceData) (fmu : FmuInstanceData) :
    FmuInstanceData :=
  match platform with
  | .unix => fmus.headD fmu
  | .win32 _ => fmu

section Exports

variable (envar : List FmiGatewayParameter) (outside : HashMap CString)

theorem afterExports_unix (fmus : List FmuInstanceData) :
    let environ := afterExports .unix envar outside fmus
    environ.Synced ∧ ∀ k, environ.inherited.lookup k = (outside.lookup k).or
      (fmus.head?.bind fun first => (exporter .unix envar k).map (envText first)) := by
  induction fmus using List.reverseRecOn with
  | nil => exact ⟨fun _ => rfl, fun _ => (Option.or_none ..).symm⟩
  | append_singleton done fmu ih =>
      obtain ⟨synced, before⟩ := ih
      obtain ⟨synced', after⟩ := setEnvar_unix fmu envar synced
      rw [afterExports, List.foldl_append]
      refine ⟨synced', fun k => (after k).trans ?_⟩
      rw [before k, Option.or_assoc]
      congr 1
      cases done with
      | nil => rfl
      | cons first done =>
          show ((exporter .unix envar k).map (envText first)).or _ =
            (exporter .unix envar k).map (envText first)
          cases exporter .unix envar k with
          | none => rfl
          | some e => rfl

theorem afterExports_win32 (upcase : String → String) (fmus : List FmuInstanceData) :
    let environ := afterExports (.win32 upcase) envar outside fmus
    environ.own = outside ∧
      (∀ k, outside.lookup k ≠ none → environ.inherited.lookup k = outside.lookup k) ∧
      ∀ k, exporter (.win32 upcase) envar k = none →
        environ.inherited.lookup k = outside.lookup k := by
  induction fmus using List.reverseRecOn with
  | nil => exact ⟨rfl, fun _ _ => rfl, fun _ _ => rfl⟩
  | append_singleton done fmu ih =>
      obtain ⟨own, kept, silent⟩ := ih
      obtain ⟨own', after⟩ := setEnvar_win32 fmu
        (afterExports (.win32 upcase) envar outside done) upcase envar
      rw [afterExports, List.foldl_append]
      refine ⟨own'.trans own, fun k set => (after k).trans ?_, fun k none => (after k).trans ?_⟩
      · rw [own, if_neg set]
        exact kept k set
      · rw [none, Option.map_none, Option.none_or, ite_self]
        exact silent k none

/-- What the command finds that is executed after some others. -/
theorem lookup_afterExports (platform : Platform) (done : List FmuInstanceData)
    (fmu : FmuInstanceData) (k : String) :
    (afterExports platform envar outside (done ++ [fmu])).inherited.lookup k =
      (outside.lookup k).or
        ((exporter platform envar k).map (envText (exportMoment platform done fmu))) := by
  cases platform with
  | unix =>
      rw [(afterExports_unix envar outside (done ++ [fmu])).2 k]
      cases done with
      | nil => rfl
      | cons first done => rfl
  | win32 upcase =>
      obtain ⟨own, kept, silent⟩ := afterExports_win32 envar outside upcase done
      rw [afterExports, List.foldl_append]
      refine ((setEnvar_win32 _ _ upcase envar).2 k).trans ?_
      show (if (afterExports (.win32 upcase) envar outside done).own.lookup k = none
        then _ else _) = _
      rw [own]
      split
      next fresh =>
        rw [fresh, Option.none_or]
        cases found : exporter (.win32 upcase) envar k with
        | some e => rfl
        | none => exact (silent k found).trans fresh
      next set =>
        refine (kept k set).trans ?_
        obtain ⟨value, stored⟩ := Option.ne_none_iff_exists'.mp set
        rw [stored]
        rfl

end Exports

/-- The commands that were executed so far, each with the values of the FMU at its moment
and the environment that the parameters were exported to. -/
structure Recorded (platform : Platform) (outside : HashMap CString) (fmus : List FmuInstanceData)
    (gw : GatewayInstance) : Prop where
  environ : gw.environ = afterExports platform gw.settings.scripts.envar outside fmus
  sound : ∀ x, Event.execute x ∈ gw.trace → ∃ done later, fmus = done ++ x.fmu :: later ∧
    x.environ =
      (afterExports platform gw.settings.scripts.envar outside (done ++ [x.fmu])).inherited
  complete : ∀ done fmu later, fmus = done ++ fmu :: later → ∃ x, Event.execute x ∈ gw.trace ∧
    x.fmu = fmu ∧
      x.environ =
        (afterExports platform gw.settings.scripts.envar outside (done ++ [fmu])).inherited

/-- Events other than the execution of a command. -/
def Silent (events : List Event) : Prop := ∀ x, Event.execute x ∉ events

section Recorded

variable {platform : Platform} {outside : HashMap CString} {fmus : List FmuInstanceData}
  {gw gw' : GatewayInstance}

theorem Recorded.of_same (recorded : Recorded platform outside fmus gw)
    (settings : gw'.settings = gw.settings) (environ : gw'.environ = gw.environ)
    {events : List Event} (silent : Silent events) (trace : gw'.trace = gw.trace ++ events) :
    Recorded platform outside fmus gw' := by
  have same (x : Execution) : Event.execute x ∈ gw'.trace ↔ Event.execute x ∈ gw.trace := by
    rw [trace, List.mem_append]
    exact ⟨fun member => member.resolve_right (silent x), .inl⟩
  refine ⟨?_, ?_, ?_⟩
  · rw [environ, settings]
    exact recorded.environ
  · intro x member
    rw [settings]
    exact recorded.sound x ((same x).mp member)
  · intro done fmu later split
    rw [settings]
    obtain ⟨x, member, both⟩ := recorded.complete done fmu later split
    exact ⟨x, (same x).mpr member, both⟩

theorem Recorded.emit (recorded : Recorded platform outside fmus gw) {events : List Event}
    (silent : Silent events) : Recorded platform outside fmus (gw.emit events) :=
  recorded.of_same rfl rfl silent rfl

/-- A command that is executed sees the exports of its moment. -/
theorem Recorded.runCmd {env : Surroundings} (recorded : Recorded env.platform outside fmus gw)
    (script : Script) (cmd : Option String) (result : Int) :
    Recorded env.platform outside (fmus ++ cmd.toList.map fun _ => gw.fmu)
      (runCmd env gw script cmd result).1 := by
  cases cmd with
  | none =>
      rw [Option.toList_none, List.map_nil, List.append_nil]
      exact recorded
  | some cmd =>
      have after : setEnvar env.platform gw.fmu gw.settings.scripts.envar gw.environ =
          afterExports env.platform gw.settings.scripts.envar outside (fmus ++ [gw.fmu]) := by
        rw [recorded.environ, afterExports, afterExports, List.foldl_append]
        rfl
      refine ⟨after, ?_, ?_⟩
      · intro x member
        cases List.mem_append.mp member with
        | inl before =>
            obtain ⟨done, later, split, found⟩ := recorded.sound x before
            refine ⟨done, later ++ [gw.fmu], ?_, found⟩
            rw [split]
            exact List.append_assoc ..
        | inr last =>
            cases List.mem_singleton.mp last
            exact ⟨fmus, [], rfl, congrArg Environ.inherited after⟩
      · intro done fmu later split
        rcases List.eq_nil_or_concat' later with rfl | ⟨later, last, rfl⟩
        · obtain ⟨rfl, same⟩ := List.append_inj' split rfl
          cases same
          refine ⟨_, List.mem_append_right _ (List.mem_singleton.mpr rfl), rfl, ?_⟩
          exact congrArg Environ.inherited after
        · have before : fmus ++ [gw.fmu] = (done ++ fmu :: later) ++ [last] :=
            split.trans (List.append_assoc done (fmu :: later) [last]).symm
          obtain ⟨rest, _⟩ := List.append_inj' before rfl
          obtain ⟨x, member, both⟩ := recorded.complete done fmu later rest
          exact ⟨x, List.mem_append_left _ member, both⟩

end Recorded

/-- The value of a parameter, or else its default, in a text; `strtod` reads a number. -/
def Denotes (strtod : CString → Double) (fmu : FmuInstanceData) (e : FmiGatewayParameter)
    (text : CString) : Prop :=
  match e.type with
  | .string => text = (fmu.stringInput.lookup e.vref).getD e.defaultValue
  | .real =>
      match scalarValue fmu e.vref with
      | some x => strtod text = x
      | none => text = e.defaultValue

/-- A parameter in the environment of a command: the value that is set outside if there is
one, or else a text for the value at the moment. -/
def Exported (platform : Platform) (strtod : CString → Double) (outside : HashMap CString)
    (x : Execution) (e : FmiGatewayParameter) : Prop :=
  let found := x.environ.lookup (platform.key e.name)
  match outside.lookup (platform.key e.name) with
  | some value => found = some value
  | none => ∃ text, found = some text ∧ Denotes strtod x.fmu e text

instance (env : Surroundings) (settings : GatewaySettings) : Decidable (Started env settings) :=
  inferInstanceAs (Decidable (_ ∨ _))

def ImporterCall.change (fmu : FmuInstanceData) : ImporterCall → FmuInstanceData
  | .set change => change fmu
  | .step => fmu

def Ends (env : Surroundings) (settings : GatewaySettings) : Prop :=
  Started env settings ∧ env.setupResult = 0 ∧
    (settings.runtime.runtimeType = .simer ∨ settings.session ≠ none)

instance (env : Surroundings) (settings : GatewaySettings) : Decidable (Ends env settings) :=
  inferInstanceAs (Decidable (_ ∧ _))

/-- The values of the FMU at the startup command and at the shutdown command, as far as these
are executed. -/
def commandMoments (env : Surroundings) (gw : GatewayInstance) (calls : List ImporterCall) :
    List FmuInstanceData :=
  (startupOf env gw.settings).toList.map (fun _ => gw.fmu) ++
    if Ends env gw.settings then
      (shutdownOf env gw.settings).toList.map fun _ =>
        calls.foldl ImporterCall.change (env.indexed gw.fmu)
    else []

/-- The parameter that sets a variable, at the moment its value is taken, has a text for the
value of every parameter that shares the variable. -/
def KeepsPriority (platform : Platform) (strtod : CString → Double) (outside : HashMap CString)
    (envar : List FmiGatewayParameter) (fmus : List FmuInstanceData) : Prop :=
  ∀ fmu ∈ fmus, ∀ e ∈ envar, outside.lookup (platform.key e.name) = none →
    ∃ source ∈ exporter platform envar (platform.key e.name),
      Denotes strtod fmu e (envText (exportMoment platform fmus fmu) source)

theorem exportMoment_append (platform : Platform) (done : List FmuInstanceData)
    (fmu : FmuInstanceData) (later : List FmuInstanceData) :
    exportMoment platform (done ++ fmu :: later) fmu = exportMoment platform done fmu := by
  cases platform with
  | unix =>
      cases done with
      | nil => rfl
      | cons first done => rfl
  | win32 upcase => rfl

theorem exported_iff (platform : Platform) (strtod : CString → Double)
    (outside : HashMap CString) (envar : List FmiGatewayParameter) {x : Execution}
    {done : List FmuInstanceData}
    (environ : x.environ = (afterExports platform envar outside (done ++ [x.fmu])).inherited)
    (e : FmiGatewayParameter) :
    Exported platform strtod outside x e ↔
      (outside.lookup (platform.key e.name) = none →
        ∃ source ∈ exporter platform envar (platform.key e.name),
          Denotes strtod x.fmu e (envText (exportMoment platform done x.fmu) source)) := by
  have found := lookup_afterExports envar outside platform done x.fmu (platform.key e.name)
  rw [← environ] at found
  unfold Exported
  rw [found]
  cases outside.lookup (platform.key e.name) with
  | some value => exact ⟨fun _ absent => (nomatch absent), fun _ => rfl⟩
  | none =>
      rw [Option.none_or, forall_prop_of_true rfl]
      constructor
      · rintro ⟨text, exported, denotes⟩
        obtain ⟨source, sets, rfl⟩ := Option.map_eq_some_iff.mp exported
        exact ⟨source, sets, denotes⟩
      · rintro ⟨source, sets, denotes⟩
        exact ⟨_, Option.map_eq_some_iff.mpr ⟨source, sets, rfl⟩, denotes⟩

/-- The commands of a run export by priority exactly when their moments do. -/
theorem Recorded.exports_iff {platform : Platform} {outside : HashMap CString}
    {fmus : List FmuInstanceData} {gw : GatewayInstance}
    (recorded : Recorded platform outside fmus gw) (strtod : CString → Double) :
    (∀ x, Event.execute x ∈ gw.trace → ∀ e ∈ gw.settings.scripts.envar,
      Exported platform strtod outside x e) ↔
    KeepsPriority platform strtod outside gw.settings.scripts.envar fmus := by
  constructor
  · intro exported fmu member e listed unset
    obtain ⟨done, later, rfl⟩ := List.append_of_mem member
    obtain ⟨x, executed, rfl, environ⟩ := recorded.complete done fmu later rfl
    rw [exportMoment_append]
    exact (exported_iff platform strtod outside _ environ e).mp (exported x executed e listed) unset
  · intro keeps x executed e listed
    obtain ⟨done, later, rfl, environ⟩ := recorded.sound x executed
    apply (exported_iff platform strtod outside _ environ e).mpr
    intro unset
    have kept := keeps x.fmu (List.mem_append_right _ List.mem_cons_self) e listed unset
    rw [exportMoment_append] at kept
    exact kept

theorem silent_map {α : Type} {f : α → Event} (other : ∀ a x, f a ≠ .execute x) (items : List α) :
    Silent (items.map f) := by
  intro x member
  obtain ⟨a, _, same⟩ := List.mem_map.mp member
  exact other a x same

section Runs

variable {env : Surroundings} {outside : HashMap CString} {fmus : List FmuInstanceData}
  {gw : GatewayInstance}

theorem Recorded.runSimer (recorded : Recorded env.platform outside fmus gw) :
    Recorded env.platform outside fmus (runSimer env gw) ∧ (runSimer env gw).fmu = gw.fmu := by
  unfold FmiGateway.runSimer
  split
  · exact ⟨recorded, rfl⟩
  · dsimp only
    split
    · refine ⟨recorded.of_same rfl rfl ?_ rfl, rfl⟩
      exact silent_map (f := Event.launch) (fun _ _ => (nomatch ·)) [_]
    · exact ⟨recorded, rfl⟩

theorem Recorded.sessionStart (recorded : Recorded env.platform outside fmus gw) :
    let gw' := (sessionStart env gw).1
    Recorded env.platform outside
        (fmus ++ (startupOf env gw.settings).toList.map fun _ => gw.fmu) gw' ∧
      gw'.fmu = gw.fmu := by
  obtain ⟨_, fmu, _⟩ := runCmd_frame env gw .startup (startupOf env gw.settings) env.startupResult
  have ran := recorded.runCmd .startup (startupOf env gw.settings) env.startupResult
  unfold FmiGateway.sessionStart
  generalize FmiGateway.runCmd env gw .startup (startupOf env gw.settings) env.startupResult =
    result at *
  obtain ⟨gw₁, rc⟩ := result
  dsimp only at *
  split
  · exact ⟨ran, fmu⟩
  · split
    · exact ⟨ran.runSimer.1, ran.runSimer.2.trans fmu⟩
    next legacy =>
      refine ⟨ran.emit ?_, fmu⟩
      rw [fmigatewayStartModels_launched env legacy]
      exact silent_map (f := Event.launch) (fun _ _ => (nomatch ·)) _

theorem Recorded.fmuInit (recorded : Recorded env.platform outside fmus gw) :
    let gw' := (fmuInit env gw).1
    Recorded env.platform outside
        (fmus ++ (startupOf env gw.settings).toList.map fun _ => gw.fmu) gw' ∧
      (Started env gw.settings → env.setupResult = 0 → gw'.fmu = env.indexed gw.fmu) := by
  obtain ⟨started, fmu⟩ := recorded.sessionStart
  have result : (FmiGateway.sessionStart env gw).2 ≠ 0 → ¬ Started env gw.settings := by
    intro failed start
    have ran := runCmd_result env gw .startup (startupOf env gw.settings) env.startupResult
    unfold FmiGateway.sessionStart at failed
    dsimp only at failed
    rw [if_neg (not_not.mpr (ran.mpr start))] at failed
    split at failed
    · exact failed rfl
    · exact failed rfl
  unfold FmiGateway.fmuInit
  generalize FmiGateway.sessionStart env gw = ran at *
  obtain ⟨gw₁, rc⟩ := ran
  dsimp only at *
  have setup : Recorded env.platform outside _ (gw₁.emit [.gwSetup env.setupResult]) :=
    started.emit (silent_map (f := Event.gwSetup) (fun _ _ => (nomatch ·)) [_])
  split
  next failed =>
    exact ⟨started, fun start _ => absurd start (result failed)⟩
  · split
    next failed =>
      exact ⟨setup, fun _ succeeded => absurd succeeded failed⟩
    · refine ⟨?_, fun _ _ => congrArg env.indexed fmu⟩
      exact setup.of_same rfl rfl (fun _ => List.not_mem_nil) (List.append_nil _).symm

/-- The calls of the importer change the values, but execute no command. -/
theorem Recorded.calls (recorded : Recorded env.platform outside fmus gw)
    (calls : List ImporterCall) :
    Recorded env.platform outside fmus (calls.foldl ImporterCall.run gw) ∧
      (calls.foldl ImporterCall.run gw).fmu = calls.foldl ImporterCall.change gw.fmu := by
  induction calls generalizing gw with
  | nil => exact ⟨recorded, rfl⟩
  | cons call calls ih =>
      cases call with
      | set change =>
          apply ih
          exact recorded.of_same rfl rfl (fun _ => List.not_mem_nil) (List.append_nil _).symm
      | step =>
          have stepped : (fmuStep gw).settings = gw.settings ∧
              (fmuStep gw).environ = gw.environ ∧ (fmuStep gw).fmu = gw.fmu ∧
              (fmuStep gw).trace = gw.trace ++ [.gwSync] := by
            unfold fmuStep
            split
            · exact ⟨rfl, rfl, rfl, rfl⟩
            · exact ⟨rfl, rfl, rfl, rfl⟩
          obtain ⟨settings, environ, fmu, trace⟩ := stepped
          have silent : Silent [Event.gwSync] := fun _ member =>
            nomatch List.mem_singleton.mp member
          obtain ⟨later, values⟩ := ih (recorded.of_same settings environ silent trace)
          refine ⟨later, values.trans ?_⟩
          rw [fmu]
          rfl

theorem Recorded.endScripts (recorded : Recorded env.platform outside fmus gw) :
    Recorded env.platform outside
      (fmus ++ (shutdownOf env gw.settings).toList.map fun _ => gw.fmu) (endScripts env gw) := by
  have ran := recorded.runCmd .shutdown (shutdownOf env gw.settings) env.shutdownResult
  unfold FmiGateway.endScripts
  generalize FmiGateway.runCmd env gw .shutdown (shutdownOf env gw.settings) env.shutdownResult =
    result at *
  obtain ⟨gw₁, rc⟩ := result
  dsimp only at *
  split
  · exact ran
  · exact ran.emit fun _ member => nomatch List.mem_singleton.mp member

theorem silent_fmigatewayShutdownModels (env : Surroundings) (state : FmiGatewayState)
    (session : FmiGatewaySession) : Silent (fmigatewayShutdownModels env state session) := by
  obtain ⟨before, after, split, before_signals, after_signals, _⟩ :=
    fmigatewayShutdownModels_signals env state session
  have loud (x : Execution) : (Event.execute x).signals ≠ true := Bool.false_ne_true
  intro x member
  rw [split] at member
  rcases List.mem_append.mp member with member | member
  · rcases List.mem_append.mp member with member | member
    · exact loud x (List.all_eq_true.mp before_signals _ member)
    · cases List.mem_singleton.mp member
  · exact loud x (List.all_eq_true.mp after_signals _ member)

theorem Recorded.stopSimer (recorded : Recorded env.platform outside fmus gw) :
    (stopSimer env gw).settings = gw.settings ∧ (stopSimer env gw).fmu = gw.fmu ∧
      Recorded env.platform outside fmus (stopSimer env gw) := by
  unfold FmiGateway.stopSimer
  split
  · refine ⟨rfl, rfl, recorded.of_same rfl rfl ?_ rfl⟩
    intro x member
    have same := List.mem_singleton.mp member
    split at same
    · cases same
    · cases same
  · exact ⟨rfl, rfl, recorded⟩

/-- The shutdown command is executed at the end of a session, unless there is none. -/
theorem Recorded.sessionEnd (recorded : Recorded env.platform outside fmus gw) :
    Recorded env.platform outside
      (fmus ++ if gw.state ≠ .created ∧
          (gw.settings.runtime.runtimeType = .simer ∨ gw.settings.session ≠ none) then
        (shutdownOf env gw.settings).toList.map fun _ => gw.fmu else [])
      (sessionEnd env gw) := by
  have exited : Recorded env.platform outside fmus (gw.emit [.gwExit]) :=
    recorded.emit fun _ member => nomatch List.mem_singleton.mp member
  unfold FmiGateway.sessionEnd
  by_cases created : gw.state = .created
  · rw [if_pos created, if_neg fun both => both.1 created, List.append_nil]
    exact recorded.emit fun _ member => nomatch List.mem_singleton.mp member
  · rw [if_neg created]
    cases type : gw.settings.runtime.runtimeType with
    | simer =>
        rw [if_pos ⟨created, .inl rfl⟩]
        obtain ⟨settings, fmu, stopped⟩ := exited.stopSimer
        have ended := stopped.endScripts
        rw [settings, fmu] at ended
        exact ended
    | legacy =>
        cases present : gw.settings.session with
        | none =>
            rw [if_neg, List.append_nil]
            · exact exited
            · rintro ⟨_, simer | some_session⟩
              · cases simer
              · exact some_session rfl
        | some session =>
            rw [if_pos ⟨created, .inr (nomatch ·)⟩]
            exact (recorded.emit (silent_fmigatewayShutdownModels env gw.state session)).endScripts

theorem settings_endScripts (env : Surroundings) (gw : GatewayInstance) :
    (endScripts env gw).settings = gw.settings := by
  obtain ⟨_, _, settings, _⟩ :=
    runCmd_frame env gw .shutdown (shutdownOf env gw.settings) env.shutdownResult
  unfold FmiGateway.endScripts
  generalize FmiGateway.runCmd env gw .shutdown (shutdownOf env gw.settings) env.shutdownResult =
    result at *
  obtain ⟨gw₁, rc⟩ := result
  dsimp only at *
  split
  · exact settings
  · exact settings

theorem settings_sessionEnd (env : Surroundings) (gw : GatewayInstance) :
    (sessionEnd env gw).settings = gw.settings := by
  unfold FmiGateway.sessionEnd
  split
  · rfl
  · split
    · refine (settings_endScripts env _).trans ?_
      unfold FmiGateway.stopSimer
      split
      · rfl
      · rfl
    · split
      · rfl
      · exact settings_endScripts env _

/-- The setup of a run decides whether the shutdown command is reached. -/
theorem calls_fmuInit_reached (env : Surroundings) {gw : GatewayInstance}
    (created : gw.state = .created) (no_process : gw.simerProcess = none)
    (quiet : gw.trace.all Event.quiet = true) (calls : List ImporterCall) :
    (calls.foldl ImporterCall.run (fmuInit env gw).1).settings = gw.settings ∧
      ((calls.foldl ImporterCall.run (fmuInit env gw).1).state ≠ .created ↔
        Started env gw.settings ∧ env.setupResult = 0) := by
  rcases fmuInit_cases env created no_process quiet with ⟨failed, run⟩ | ⟨started, run⟩
  · have run := run.calls calls
    refine ⟨run.settings, ?_⟩
    rw [ne_eq, run.created]
    exact ⟨fun set => absurd (nomatch ·) set, fun both => absurd both.1 failed⟩
  · have run := run.calls calls
    refine ⟨run.settings, ?_⟩
    rw [ne_eq, run.created, not_not, and_iff_right started]
    exact ⟨Option.some.inj, congrArg some⟩

end Runs

theorem gatewayRun_recorded (env : Surroundings) (fmu : FmuInstanceData)
    (settings : GatewaySettings) (outside : HashMap CString)
    (before : List (FmuInstanceData → FmuInstanceData)) (calls : List ImporterCall) :
    let gw := configured fmu settings outside before
    let gw' := gatewayRun env fmu settings outside before calls
    Recorded env.platform outside (commandMoments env gw calls) gw' ∧ gw'.settings = settings := by
  obtain ⟨same, created, no_process, environ, trace⟩ := configured_frame fmu settings outside before
  unfold gatewayRun commandMoments
  generalize configured fmu settings outside before = gw at *
  subst same
  have quiet : gw.trace.all Event.quiet = true := by
    rw [trace]
    rfl
  have start : Recorded env.platform outside [] gw := by
    refine ⟨environ, ?_, ?_⟩
    · intro x member
      rw [trace] at member
      cases List.mem_singleton.mp member
    · intro done later_fmu later split
      exact absurd split.symm (by simp)
  obtain ⟨initialised, values⟩ := start.fmuInit
  obtain ⟨called, values'⟩ := initialised.calls calls
  obtain ⟨run_settings, reached⟩ := calls_fmuInit_reached env created no_process quiet calls
  dsimp only
  generalize calls.foldl ImporterCall.run (fmuInit env gw).1 = called_gw at *
  have ended := called.sessionEnd
  have ends_iff : (called_gw.state ≠ .created ∧
      (called_gw.settings.runtime.runtimeType = .simer ∨ called_gw.settings.session ≠ none)) ↔
      Ends env gw.settings := by
    rw [run_settings, reached, Ends, and_assoc]
  refine ⟨?_, (settings_sessionEnd env called_gw).trans run_settings⟩
  by_cases ends : Ends env gw.settings
  · rw [if_pos (ends_iff.mpr ends), run_settings, values', values ends.1 ends.2.1] at ended
    rw [if_pos ends]
    exact ended.of_same rfl rfl (fun _ => List.not_mem_nil) (List.append_nil _).symm
  · rw [if_neg fun both => ends (ends_iff.mp both)] at ended
    rw [if_neg ends]
    exact ended.of_same rfl rfl (fun _ => List.not_mem_nil) (List.append_nil _).symm

/-- Every command of a run sees each parameter by its priority exactly when the parameter that
sets the variable has a text for its value: on Unix the first one of its name, as it is when
the first command is executed, and on Windows the last one of its name. -/
theorem gatewayRun_exports_iff (strtod : CString → Double) (env : Surroundings)
    (fmu : FmuInstanceData) (settings : GatewaySettings) (outside : HashMap CString)
    (before : List (FmuInstanceData → FmuInstanceData)) (calls : List ImporterCall) :
    (∀ x, Event.execute x ∈ (gatewayRun env fmu settings outside before calls).trace →
      ∀ e ∈ settings.scripts.envar, Exported env.platform strtod outside x e) ↔
    KeepsPriority env.platform strtod outside settings.scripts.envar
      (commandMoments env (configured fmu settings outside before) calls) := by
  obtain ⟨recorded, same⟩ := gatewayRun_recorded env fmu settings outside before calls
  have exports := recorded.exports_iff strtod
  rw [same] at exports
  exact exports

/-- Unix, where all commands and the setup succeed. -/
def unix : Surroundings where
  platform := .unix
  startupFile := none
  shutdownFile := none
  startupResult := 0
  shutdownResult := 0
  setupResult := 0
  created _ := true
  alive _ := true
  ended _ := true
  indexed := id

/-- A gateway with a string parameter and both commands. -/
def scriptSettings : GatewaySettings where
  runtime := ⟨.simer, []⟩
  session := none
  scripts := ⟨some "start.sh", some "stop.sh", [⟨"MODE", "2", .string, cString ""⟩]⟩

/-- The shutdown command does not see the value that the importer set last. -/
theorem gatewayRun_export_stale : ¬ ∃ strtod : CString → Double,
    ∀ x, Event.execute x ∈ (gatewayRun unix .null scriptSettings ∅
        [fun fmu => hashmapSetString fmu "2" (cString "a")]
        [.step, .set fun fmu => hashmapSetString fmu "2" (cString "b")]).trace →
      ∀ e ∈ scriptSettings.scripts.envar, Exported unix.platform strtod ∅ x e := by
  rintro ⟨strtod, exported⟩
  obtain ⟨recorded, same⟩ := gatewayRun_recorded unix .null scriptSettings ∅
    [fun fmu => hashmapSetString fmu "2" (cString "a")]
    [.step, .set fun fmu => hashmapSetString fmu "2" (cString "b")]
  rw [← same] at exported
  have keeps := (recorded.exports_iff strtod).mp exported
  rw [same] at keeps
  obtain ⟨source, first, denotes⟩ := keeps _ (List.mem_cons_of_mem _ List.mem_cons_self) _
    List.mem_cons_self rfl
  cases first
  have stale : cString "a" = cString "b" := denotes
  exact absurd stale (by decide)

end DseFmi.FmiGateway
