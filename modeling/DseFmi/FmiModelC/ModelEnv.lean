import DseFmi.Fmu.Data
import DseFmi.Library.JoinedNames
import DseFmi.Library.KeyedList

/-!
# The environment of a simulation

The runtime exports the variables of a stack under their own names, and those of a model
instance under a name that is composed in a buffer of fixed size.
-/

namespace DseFmi.FmiModelC

open DseFmi.Fmu (CString)
open DseFmi.Library

/-- The entries of a mapping in the order of its keys, with their scalars. -/
abbrev EnvMapping := List (CString × Option CString)

structure InstanceEnv where
  name : CString
  env : EnvMapping

structure SimulationEnv where
  env : EnvMapping
  instanceList : List InstanceEnv

abbrev Envars := AList fun _ : List UInt8 => CString

def simbus : List UInt8 := [115, 105, 109, 98, 117, 115]

def bufferSize : Nat := 100

def toupper (c : UInt8) : UInt8 := if 97 ≤ c ∧ c ≤ 122 then c - 32 else c

/-- The buffer after `snprintf` and `toupper`. -/
def composedName (mi name : CString) : List UInt8 :=
  ((mi.bytes ++ 95 :: 95 :: name.bytes).take (bufferSize - 1)).map toupper

def setOwnName (envars : Envars) (e : CString × Option CString) : Envars :=
  match e.2 with
  | some scalar => envars.insert e.1.bytes scalar
  | none => envars

def setInstanceName (mi : CString) (envars : Envars) (e : CString × Option CString) : Envars :=
  match e.2 with
  | some scalar =>
      if mi.bytes = simbus then envars.insert e.1.bytes scalar
      else envars.insert (composedName mi e.1) scalar
  | none => envars

def setInstanceEnv (envars : Envars) (mi : InstanceEnv) : Envars :=
  mi.env.foldl (setInstanceName mi.name) envars

def fmimodelcSetModelEnv (sim : SimulationEnv) : Envars :=
  sim.instanceList.foldl setInstanceEnv (sim.env.foldl setOwnName ∅)

structure EnvVariable where
  mi : Option CString
  name : CString
  value : CString

def upper (s : CString) : List UInt8 := s.bytes.map toupper

def EnvVariable.fullName (v : EnvVariable) : List UInt8 :=
  match v.mi with
  | none => v.name.bytes
  | some mi => upper mi ++ 95 :: 95 :: upper v.name

def EnvVariable.setName (v : EnvVariable) : List UInt8 :=
  match v.mi with
  | none => v.name.bytes
  | some _ => v.fullName.take (bufferSize - 1)

def ownVariables (env : EnvMapping) : List EnvVariable :=
  env.filterMap fun e => e.2.map fun value => ⟨none, e.1, value⟩

def InstanceEnv.variables (mi : InstanceEnv) : List EnvVariable :=
  if mi.name.bytes = simbus then ownVariables mi.env
  else mi.env.filterMap fun e => e.2.map fun value => ⟨some mi.name, e.1, value⟩

/-- All variables, in the order in which they are set. -/
def SimulationEnv.vars (sim : SimulationEnv) : List EnvVariable :=
  ownVariables sim.env ++ sim.instanceList.flatMap InstanceEnv.variables

theorem composedName_eq (mi name value : CString) :
    composedName mi name = (EnvVariable.mk (some mi) name value).setName := by
  simp [composedName, EnvVariable.setName, EnvVariable.fullName, upper, List.map_take, toupper]

def setVariable (envars : Envars) (v : EnvVariable) : Envars := envars.insert v.setName v.value

theorem foldl_setOwnName (env : EnvMapping) (envars : Envars) :
    env.foldl setOwnName envars = (ownVariables env).foldl setVariable envars := by
  induction env generalizing envars with
  | nil => rfl
  | cons e env ih =>
      obtain ⟨name, scalar⟩ := e
      cases scalar with
      | none => exact ih envars
      | some value => exact ih _

theorem setInstanceEnv_eq (envars : Envars) (mi : InstanceEnv) :
    setInstanceEnv envars mi = mi.variables.foldl setVariable envars := by
  obtain ⟨name, env⟩ := mi
  unfold setInstanceEnv InstanceEnv.variables
  by_cases bus : name.bytes = simbus
  · have own : setInstanceName name = setOwnName := by
      funext envars e
      obtain ⟨_, scalar⟩ := e
      cases scalar with
      | none => rfl
      | some value => exact if_pos bus
    rw [if_pos bus, own, foldl_setOwnName]
  · rw [if_neg bus]
    dsimp only
    induction env generalizing envars with
    | nil => rfl
    | cons e env ih =>
        obtain ⟨key, scalar⟩ := e
        cases scalar with
        | none => exact ih envars
        | some value =>
            have round : setInstanceName name envars (key, some value) =
                setVariable envars ⟨some name, key, value⟩ := by
              rw [setVariable, ← composedName_eq name key value]
              exact if_neg bus
            rw [List.foldl_cons, round]
            exact ih _

theorem fmimodelcSetModelEnv_eq (sim : SimulationEnv) :
    fmimodelcSetModelEnv sim = sim.vars.foldl setVariable ∅ := by
  have rounds : setInstanceEnv = fun envars mi => mi.variables.foldl setVariable envars := by
    funext envars mi
    exact setInstanceEnv_eq envars mi
  rw [fmimodelcSetModelEnv, SimulationEnv.vars, List.foldl_append, List.foldl_flatMap,
    foldl_setOwnName, rounds]

def SimulationEnv.lastSet (sim : SimulationEnv) (n : List UInt8) : Option EnvVariable :=
  (sim.vars.filter fun v => v.setName = n).getLast?

theorem lookup_fmimodelcSetModelEnv (sim : SimulationEnv) (n : List UInt8) :
    (fmimodelcSetModelEnv sim).lookup n = (sim.lastSet n).map EnvVariable.value := by
  have last := lookup_foldl_insert_last EnvVariable.value (sim.vars.map fun v => (v.setName, v)) n ∅
  rw [List.foldl_map] at last
  rw [fmimodelcSetModelEnv_eq]
  refine last.trans ?_
  rw [List.filter_map, List.getLast?_map, Option.map_map]
  exact Option.or_none ..

/-- A name without two underscores in a row. -/
def Plain (s : List UInt8) : Prop := ¬ [95, 95] <:+: s

/-- The instance and the name of a composed variable, in upper case. -/
def EnvVariable.pair (v : EnvVariable) : Option (List UInt8 × List UInt8) :=
  v.mi.map fun mi => (upper mi, upper v.name)

/-- Every variable is found under its full name, unless a later one has the same; variables of
distinct plain pairs have names of their own. -/
structure FullyExported (sim : SimulationEnv) : Prop where
  named : ∀ before v after, sim.vars = before ++ v :: after →
    (∀ w ∈ after, w.fullName ≠ v.fullName) →
      (fmimodelcSetModelEnv sim).lookup v.fullName = some v.value
  apart : ∀ v ∈ sim.vars, ∀ w ∈ sim.vars, ∀ p ∈ v.pair, ∀ q ∈ w.pair, p ≠ q →
    Plain p.1 → Plain p.2 → Plain q.1 → Plain q.2 → v.setName ≠ w.setName

def EnvVariable.Fits (v : EnvVariable) : Prop := v.mi = none ∨ v.fullName.length < bufferSize

/-- The buffer cuts the composed name to another one. -/
def EnvVariable.CutTo (v : EnvVariable) (n : List UInt8) : Prop :=
  v.mi ≠ none ∧ bufferSize ≤ v.fullName.length ∧ v.fullName.take (bufferSize - 1) = n

instance (v : EnvVariable) (n : List UInt8) : Decidable (v.CutTo n) :=
  inferInstanceAs (Decidable (_ ∧ _))

/-- A variable keeps its name. The last of the later ones that are cut to a name that fits has the
same value; a name that does not fit is that of an earlier variable with the same value, which is
not composed. -/
structure EnvVariable.Kept (v : EnvVariable) (before after : List EnvVariable) : Prop where
  fits : v.Fits → ∀ w, (after.filter fun w => w.CutTo v.fullName).getLast? = some w →
    w.value = v.value
  long : ¬ v.Fits → ∃ w,
    (before.filter fun w => w.mi = none ∧ w.name.bytes = v.fullName).getLast? = some w ∧
      w.value = v.value

/-- Every variable that no later one shadows keeps its name; distinct plain pairs share no seam and
are told apart by what the buffer holds. -/
structure NamesKept (sim : SimulationEnv) : Prop where
  kept : ∀ before v after, sim.vars = before ++ v :: after →
    (∀ w ∈ after, w.fullName ≠ v.fullName) → v.Kept before after
  apart : ∀ v ∈ sim.vars, ∀ w ∈ sim.vars, ∀ p ∈ v.pair, ∀ q ∈ w.pair, p ≠ q →
    Plain p.1 → Plain p.2 → Plain q.1 → Plain q.2 →
      ¬ SharesSeam 95 p q ∧
        (v.fullName.take (bufferSize - 1) = w.fullName.take (bufferSize - 1) → v.Fits ∧ w.Fits)

theorem setName_of_fits {v : EnvVariable} (fits : v.Fits) : v.setName = v.fullName := by
  unfold EnvVariable.setName
  cases composed : v.mi with
  | none => simp [EnvVariable.fullName, composed]
  | some mi =>
      have short := fits.resolve_left (by simp [composed])
      exact List.take_of_length_le (Nat.le_sub_one_of_lt short)

theorem setName_of_own {v : EnvVariable} (own : v.mi = none) : v.setName = v.name.bytes := by
  rw [EnvVariable.setName, own]

theorem setName_of_composed {v : EnvVariable} (composed : v.mi ≠ none) :
    v.setName = v.fullName.take (bufferSize - 1) := by
  obtain ⟨mi, owner⟩ := Option.ne_none_iff_exists'.mp composed
  rw [EnvVariable.setName, owner]

theorem setName_eq_iff_cutTo {w : EnvVariable} {n : List UInt8} (other : w.fullName ≠ n) :
    w.setName = n ↔ w.CutTo n := by
  constructor
  · intro same
    have cut : ¬ w.Fits := by
      intro fits
      rw [setName_of_fits fits] at same
      exact other same
    obtain ⟨composed, long⟩ := not_or.mp cut
    rw [setName_of_composed composed] at same
    exact ⟨composed, not_lt.mp long, same⟩
  · rintro ⟨composed, _, same⟩
    rw [setName_of_composed composed]
    exact same

/-- A name that does not fit is set for variables that are not composed only. -/
theorem setName_eq_iff_own {w : EnvVariable} {n : List UInt8} (long : bufferSize ≤ n.length) :
    w.setName = n ↔ w.mi = none ∧ w.name.bytes = n := by
  constructor
  · intro same
    have own : w.mi = none := by
      by_contra composed
      have short : (w.fullName.take (bufferSize - 1)).length ≤ bufferSize - 1 :=
        List.length_take_le _ _
      rw [← setName_of_composed composed, same] at short
      exact absurd (long.trans short) (by decide)
    rw [setName_of_own own] at same
    exact ⟨own, same⟩
  · rintro ⟨own, same⟩
    rw [setName_of_own own]
    exact same

theorem fullName_of_pair {v : EnvVariable} {p : List UInt8 × List UInt8} (pair : v.pair = some p) :
    v.fullName = p.1 ++ 95 :: 95 :: p.2 ∧ v.setName = v.fullName.take (bufferSize - 1) := by
  obtain ⟨mi, composed, rfl⟩ := Option.map_eq_some_iff.mp pair
  simp [EnvVariable.fullName, EnvVariable.setName, composed]

theorem setName_ne_iff {v w : EnvVariable} {p q : List UInt8 × List UInt8}
    (pair : v.pair = some p) (pair' : w.pair = some q) (distinct : p ≠ q) (plain : Plain p.1)
    (plain' : Plain q.1) : v.setName ≠ w.setName ↔ ¬ SharesSeam 95 p q ∧
      (v.fullName.take (bufferSize - 1) = w.fullName.take (bufferSize - 1) → v.Fits ∧ w.Fits) := by
  obtain ⟨full, set⟩ := fullName_of_pair pair
  obtain ⟨full', set'⟩ := fullName_of_pair pair'
  have same_iff : v.fullName = w.fullName ↔ SharesSeam 95 p q := by
    rw [full, full', append_double_eq_iff plain plain']
    constructor
    · rintro (⟨first, second⟩ | seam)
      · exact absurd (Prod.ext first second) distinct
      · exact seam
    · exact Or.inr
  constructor
  · intro different
    constructor
    · intro seam
      rw [set, set', same_iff.mpr seam] at different
      exact different rfl
    · intro cut
      rw [set, set'] at different
      exact absurd cut different
  · rintro ⟨no_seam, told⟩ same
    have cut := same
    rw [set, set'] at cut
    obtain ⟨fits, fits'⟩ := told cut
    rw [setName_of_fits fits, setName_of_fits fits'] at same
    exact no_seam (same_iff.mp same)

/-- The variables from one that fits on that are set under its name. -/
theorem filter_setName_of_fits {v : EnvVariable} {later : List EnvVariable} (fits : v.Fits)
    (unshadowed : ∀ w ∈ later, w.fullName ≠ v.fullName) :
    ((v :: later).filter fun w => w.setName = v.fullName) =
      v :: later.filter fun w => w.CutTo v.fullName := by
  rw [List.filter_cons, if_pos (decide_eq_true (setName_of_fits fits))]
  congr 1
  apply List.filter_congr
  intro w member
  exact decide_eq_decide.mpr (setName_eq_iff_cutTo (unshadowed w member))

/-- From a variable that does not fit on, none is set under its name. -/
theorem filter_setName_of_long {v : EnvVariable} {later : List EnvVariable}
    (composed : v.mi ≠ none) (long : bufferSize ≤ v.fullName.length)
    (unshadowed : ∀ w ∈ later, w.fullName ≠ v.fullName) :
    ((v :: later).filter fun w => w.setName = v.fullName) = [] := by
  rw [List.filter_eq_nil_iff]
  intro w member same
  obtain ⟨own, name⟩ := (setName_eq_iff_own long).mp (of_decide_eq_true same)
  cases List.mem_cons.mp member with
  | inl here => exact composed (here ▸ own)
  | inr later =>
      apply unshadowed w later
      rw [← name, EnvVariable.fullName, own]

/-- What is found under the name of a variable that no later one shadows. -/
theorem lookup_fullName_iff {sim : SimulationEnv} {before after : List EnvVariable}
    {v : EnvVariable} (split : sim.vars = before ++ v :: after)
    (unshadowed : ∀ w ∈ after, w.fullName ≠ v.fullName) :
    (fmimodelcSetModelEnv sim).lookup v.fullName = some v.value ↔ v.Kept before after := by
  rw [lookup_fmimodelcSetModelEnv, SimulationEnv.lastSet, split, List.filter_append]
  by_cases fits : v.Fits
  · rw [filter_setName_of_fits fits unshadowed]
    constructor
    · intro found
      refine ⟨?_, fun long => absurd fits long⟩
      intro _ w last
      rw [List.getLast?_append, List.getLast?_cons, last] at found
      simpa using found
    · intro kept
      rw [List.getLast?_append, List.getLast?_cons]
      cases last : (after.filter fun w => w.CutTo v.fullName).getLast? with
      | none => rfl
      | some w =>
          have same := kept.fits fits w last
          simpa using same
  · obtain ⟨composed, long⟩ := not_or.mp fits
    have long := not_lt.mp long
    have earlier : (before.filter fun w => w.setName = v.fullName) =
        before.filter fun w => w.mi = none ∧ w.name.bytes = v.fullName := by
      apply List.filter_congr
      intro w _
      exact decide_eq_decide.mpr (setName_eq_iff_own long)
    rw [filter_setName_of_long composed long unshadowed, List.append_nil, earlier,
      Option.map_eq_some_iff]
    constructor
    · intro found
      exact ⟨fun held => absurd held fits, fun _ => found⟩
    · intro kept
      exact kept.long fits

theorem fullyExported_iff_namesKept (sim : SimulationEnv) : FullyExported sim ↔ NamesKept sim := by
  constructor
  · intro exported
    constructor
    · intro before v after split unshadowed
      exact (lookup_fullName_iff split unshadowed).mp
        (exported.named before v after split unshadowed)
    · intro v listed w listed' p pair q pair' distinct plain₁ plain₂ plain₃ plain₄
      apply (setName_ne_iff pair pair' distinct plain₁ plain₃).mp
      exact exported.apart v listed w listed' p pair q pair' distinct plain₁ plain₂ plain₃ plain₄
  · intro kept
    constructor
    · intro before v after split unshadowed
      exact (lookup_fullName_iff split unshadowed).mpr (kept.kept before v after split unshadowed)
    · intro v listed w listed' p pair q pair' distinct plain₁ plain₂ plain₃ plain₄
      apply (setName_ne_iff pair pair' distinct plain₁ plain₃).mpr
      exact kept.apart v listed w listed' p pair q pair' distinct plain₁ plain₂ plain₃ plain₄

theorem lastSet_mem {sim : SimulationEnv} {n : List UInt8} {w : EnvVariable}
    (last : sim.lastSet n = some w) : w ∈ sim.vars ∧ w.setName = n := by
  have listed := List.mem_of_getLast? last
  exact ⟨List.mem_of_mem_filter listed, of_decide_eq_true (List.mem_filter.mp listed).2⟩

section Distinct

variable {sim : SimulationEnv} (distinct : (sim.vars.map EnvVariable.fullName).Nodup)
include distinct

theorem eq_of_fullName {v w : EnvVariable} (listed : v ∈ sim.vars) (listed' : w ∈ sim.vars)
    (same : v.fullName = w.fullName) : v = w :=
  List.inj_on_of_nodup_map distinct listed listed' same

theorem unshadowed_of_distinct {before after : List EnvVariable} {v : EnvVariable}
    (split : sim.vars = before ++ v :: after) : ∀ w ∈ after, w.fullName ≠ v.fullName := by
  rw [split, List.map_append, List.map_cons] at distinct
  intro w later same
  have fresh := (List.nodup_cons.mp (List.nodup_append.mp distinct).2.1).1
  exact fresh (same ▸ List.mem_map_of_mem later)

theorem fits_of_fullyExported (exported : FullyExported sim) {v : EnvVariable}
    (listed : v ∈ sim.vars) : v.Fits := by
  by_contra cut
  obtain ⟨composed, long⟩ := not_or.mp cut
  obtain ⟨before, after, split⟩ := List.append_of_mem listed
  have found := exported.named before v after split (unshadowed_of_distinct distinct split)
  rw [lookup_fmimodelcSetModelEnv] at found
  obtain ⟨w, last, -⟩ := Option.map_eq_some_iff.mp found
  obtain ⟨listed', name⟩ := lastSet_mem last
  cases owner : w.mi with
  | none =>
      have full : w.fullName = v.fullName := by
        rw [← setName_of_fits (.inl owner), name]
      rw [eq_of_fullName distinct listed' listed full] at owner
      exact composed owner
  | some mi =>
      have short : w.setName.length ≤ bufferSize - 1 := by
        rw [EnvVariable.setName, owner]
        exact List.length_take_le _ _
      rw [name] at short
      exact long (Nat.lt_of_le_sub_one (by decide) short)

theorem fullyExported_of_fits (fits : ∀ v ∈ sim.vars, v.Fits) : FullyExported sim := by
  constructor
  · intro before v after split _
    have listed : v ∈ sim.vars := by simp [split]
    have candidate : v ∈ sim.vars.filter fun w => w.setName = v.fullName := by
      apply List.mem_filter.mpr
      exact ⟨listed, decide_eq_true (setName_of_fits (fits v listed))⟩
    obtain ⟨w, last⟩ : ∃ w, sim.lastSet v.fullName = some w :=
      ⟨_, List.getLast?_eq_some_getLast (List.ne_nil_of_mem candidate)⟩
    obtain ⟨listed', name⟩ := lastSet_mem last
    rw [setName_of_fits (fits w listed')] at name
    rw [lookup_fmimodelcSetModelEnv, last, eq_of_fullName distinct listed' listed name]
    rfl
  · intro v listed w listed' p pair q pair' different _ _ _ _ same
    rw [setName_of_fits (fits v listed), setName_of_fits (fits w listed')] at same
    rw [eq_of_fullName distinct listed listed' same] at pair
    exact different (Option.some.inj (pair.symm.trans pair'))

end Distinct

/-- The export is complete exactly when every variable keeps its name and the buffer tells the
composed names apart; for distinct full names exactly when each of them fits. -/
theorem fullyExported_iff (sim : SimulationEnv) :
    (FullyExported sim ↔ NamesKept sim) ∧
      ((sim.vars.map EnvVariable.fullName).Nodup →
        (FullyExported sim ↔ ∀ v ∈ sim.vars, v.Fits)) := by
  refine ⟨fullyExported_iff_namesKept sim, fun distinct => ?_⟩
  constructor
  · exact fun exported v listed => fits_of_fullyExported distinct exported listed
  · exact fullyExported_of_fits distinct

def repeated (n : Nat) : List UInt8 := List.replicate n 65

theorem nul_not_mem_repeated (n : Nat) : 0 ∉ repeated n := by
  intro nul
  exact absurd (List.eq_of_mem_replicate nul) (by decide)

def repeatedName (n : Nat) : CString := ⟨repeated n, nul_not_mem_repeated n⟩

/-- One instance with one variable, by the lengths of their names. -/
def oneVariable (mi name : Nat) : SimulationEnv :=
  ⟨[], [⟨repeatedName mi, [(repeatedName name, some (repeatedName 1))]⟩]⟩

/-- A name of 49 letters behind that of an instance with 50 does not fit. -/
theorem fullyExported_cut : ¬ FullyExported (oneVariable 50 49) := by
  intro exported
  have found := exported.named [] ⟨some (repeatedName 50), repeatedName 49, repeatedName 1⟩ [] rfl
    fun _ none_later => absurd none_later List.not_mem_nil
  have lost : (fmimodelcSetModelEnv (oneVariable 50 49)).lookup
      (EnvVariable.mk (some (repeatedName 50)) (repeatedName 49) (repeatedName 1)).fullName =
        none := by
    decide +kernel
  rw [lost] at found
  cases found

end DseFmi.FmiModelC
