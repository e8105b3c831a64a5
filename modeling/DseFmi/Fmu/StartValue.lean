import DseFmi.Fmu.VariableCount
import DseFmi.Fmu.VarTable

/-!
# Start values

The index of a model description does not look at start values. The scalars of an instance
are zero until they are set, and the registration of a variable always returns zero.
-/

namespace DseFmi.Fmu

open DseFmi.Library

structure StartVariable where
  node : ScalarVariable
  start : Option Double
  deriving DecidableEq, Repr

/-- The function an FMU developer provides to create the FMU. It keeps the index and the
values of the scalars. -/
structure FmuCreate where
  run : FmuInstanceData → FmuInstanceData
  maps : ∀ fmu, SameScalarMaps fmu (run fmu)
  values : ∀ fmu p, (run fmu).getScalar p = fmu.getScalar p

/-- An instance before its signals are set up: errors, infos and debug messages are logged. -/
def freshInstance (loggingOn : Bool) : FmuInstanceData :=
  { FmuInstanceData.null with
    logEnabled := loggingOn
    logCategories := if loggingOn then 1 <<< 1 ||| 1 <<< 2 ||| 1 <<< 3 ||| 1 <<< 4 else 0 }

def fmi2Instantiate (codecs : Codecs) (create : FmuCreate) (doc : List StartVariable)
    (loggingOn : Bool) : Option FmuInstanceData :=
  (fmuDefaultSignalsSetup codecs (some (doc.map StartVariable.node))
    (freshInstance loggingOn)).map create.run

structure YieldsStart (keys : KeyLen) (fmu : FmuInstanceData) (vr : UInt32)
    (start : Option Double) : Prop where
  read : ∀ x, start = some x → ∀ slot, (fmi2GetReal fmu [(vr, slot)]).2 = [x]
  registered : ∀ vt input offset, (fmuRegisterVar keys fmu vt vr input offset).2 = start.getD 0

/-- The scalar pass enters a variable of the causality under the key. -/
def IndexedVariable (doc : List ScalarVariable) (output : Bool) (k : String) : Prop :=
  ∃ node ∈ doc, node.valueReference = k ∧ node.causality = some (causalityText output) ∧
    reachedChildren false node.children ≠ []

def ReadableReference (doc : List ScalarVariable) (vr : UInt32) : Prop :=
  IndexedVariable doc true (vrIdx vr) ∨ IndexedVariable doc false (vrIdx vr)

instance (doc : List ScalarVariable) (output : Bool) (k : String) :
    Decidable (IndexedVariable doc output k) :=
  inferInstanceAs (Decidable (∃ node ∈ doc, _))

instance (doc : List ScalarVariable) (vr : UInt32) : Decidable (ReadableReference doc vr) :=
  inferInstanceAs (Decidable (_ ∨ _))

section Scan

variable {codecs : Codecs} {isBinary : Bool} {pos : Nat} {doc : List ScalarVariable}
  {node : ScalarVariable} {s t : IndexState}

theorem firstElement_of_reached {children : List XmlChild}
    (reached : reachedChildren isBinary children ≠ []) :
    ∃ name, firstElement children = some name ∧ supportedVar isBinary name = true := by
  rw [firstElement_eq]
  cases names : elementNames children with
  | nil => simp [reachedChildren, names] at reached
  | cons name rest =>
      refine ⟨name, rfl, ?_⟩
      by_contra unsupported
      simp [reachedChildren, names, unsupported] at reached

theorem variableMap_of_noScalars {fmu : FmuInstanceData} (none_yet : NoScalars fmu)
    (output : Bool) : fmu.variableMap false output = ∅ := by
  cases output with
  | false => exact none_yet.input
  | true => exact none_yet.output

theorem SameScalarMaps.variableMap {fmu gmu : FmuInstanceData} (same : SameScalarMaps fmu gmu)
    (output : Bool) : gmu.variableMap false output = fmu.variableMap false output := by
  cases output with
  | false => exact same.input
  | true => exact same.output

/-- A key is in a map of the scalars exactly when a variable is indexed under it. -/
theorem fmuVariableIndex_lookup_iff {fmu : FmuInstanceData} {sv : FmuSignalVector}
    (none_yet : NoScalars fmu)
    (indexed : fmuVariableIndex codecs false pos doc ⟨fmu, sv, 0⟩ = some t) (output : Bool)
    (k : String) :
    (∃ p, (t.fmu.variableMap false output).lookup k = some p) ↔ IndexedVariable doc output k := by
  constructor
  · refine fmuVariableIndex_preserves_reached
      (P := fun u => (∃ p, (u.fmu.variableMap false output).lookup k = some p) →
        IndexedVariable doc output k) ?_ ?_ indexed
    · intro node member reached u v known entered found
      obtain ⟨p, found⟩ := found
      rw [(indexVariable_step entered).map] at found
      split at found
      next causality =>
        rcases lookup_insert_cases found with ⟨rfl, _⟩ | found
        · exact ⟨node, member, rfl, causality, reached⟩
        · exact known ⟨p, found⟩
      next => exact known ⟨p, found⟩
    · rintro ⟨p, found⟩
      rw [variableMap_of_noScalars none_yet, AList.lookup_empty] at found
      cases found
  · rintro ⟨node, member, rfl, causality, reached⟩
    obtain ⟨name, first, supported⟩ := firstElement_of_reached reached
    refine fmuVariableIndex_establishes (I := fun _ => True)
      (P := fun u => ∃ p, (u.fmu.variableMap false output).lookup node.valueReference = some p)
      member first supported (fun _ _ _ _ _ _ => trivial) ?_ ?_ trivial indexed
    · intro u v _ entered
      rw [(indexVariable_step entered).map, if_pos causality]
      exact ⟨_, AList.lookup_insert _⟩
    · intro other _ u v _ present entered
      rw [(indexVariable_step entered).map]
      split
      · exact lookup_insert_isSome present
      · exact present

end Scan

def ZeroScalars (svs : List FmuSignalVector) : Prop :=
  ∀ sv ∈ svs, ∀ i x, sv.getScalar i = some x → x = 0

theorem fmuVariableIndex_scalar {codecs : Codecs} {isBinary : Bool} {pos : Nat}
    {doc : List ScalarVariable} {s t : IndexState}
    (indexed : fmuVariableIndex codecs isBinary pos doc s = some t) :
    t.sv.scalar = s.sv.scalar := by
  refine fmuVariableIndex_preserves (P := fun u => u.sv.scalar = s.sv.scalar) ?_ rfl indexed
  intro node _ u v same entered
  unfold indexVariable at entered
  split at entered
  next =>
    cases isBinary with
    | false =>
        simp only [Bool.false_eq_true, if_false, Option.some.injEq] at entered
        rw [← entered]
        exact same
    | true =>
        simp only [if_true, Option.some.injEq] at entered
        rw [← entered]
        exact same
  next => cases entered

theorem setupSv_zero {codecs : Codecs} {doc : List ScalarVariable} {isBinary : Bool}
    {state result : FmuInstanceData × List FmuSignalVector} (zero : ZeroScalars state.2)
    (setup : setupSv codecs doc isBinary state = some result) : ZeroScalars result.2 := by
  unfold setupSv at setup
  split at setup
  next => exact Option.some.inj setup ▸ zero
  next sv allocated =>
    obtain ⟨t, indexed, rest⟩ := Option.bind_eq_some_iff.mp setup
    obtain rfl := Option.some.inj rest
    intro other member i x found
    rcases List.mem_append.mp member with member | member
    · exact zero other member i x found
    · obtain rfl := List.mem_singleton.mp member
      rw [FmuSignalVector.getScalar, fmuVariableIndex_scalar indexed] at found
      unfold allocateSv at allocated
      dsimp only at allocated
      split at allocated
      next => cases allocated
      next =>
        obtain rfl := Option.some.inj allocated
        cases isBinary with
        | false =>
            obtain ⟨_, value⟩ := List.getElem?_eq_some_iff.mp found
            simpa using value.symm
        | true => cases found

structure ZeroIndexed (doc : List ScalarVariable) (fmu : FmuInstanceData) : Prop where
  lookup : ∀ output k,
    (∃ p, (fmu.variableMap false output).lookup k = some p) ↔ IndexedVariable doc output k
  zero : ∀ k p, Points fmu k p → fmu.getScalar p = some 0
  hashed : fmu.directIndex = none

theorem IndexedVariable.counted {doc : List ScalarVariable} {output : Bool} {k : String}
    (indexed : IndexedVariable doc output k) : fmuVariableCount doc false ≠ 0 := by
  obtain ⟨node, member, _, _, reached⟩ := indexed
  intro none_counted
  have here := List.sum_eq_zero_iff_forall_eq_nat.mp none_counted _ (List.mem_map_of_mem member)
  have few := reachedChildren_le false node.children
  exact reached (List.length_eq_zero_iff.mp (by omega))

theorem setupSv_lookup_iff {codecs : Codecs} {doc : List ScalarVariable} {fmu : FmuInstanceData}
    {result : FmuInstanceData × List FmuSignalVector} (none_yet : NoScalars fmu)
    (setup : setupSv codecs doc false (fmu, []) = some result) (output : Bool) (k : String) :
    (∃ p, (result.1.variableMap false output).lookup k = some p) ↔
      IndexedVariable doc output k := by
  unfold setupSv at setup
  split at setup
  next missing =>
    obtain rfl := Option.some.inj setup
    rw [variableMap_of_noScalars none_yet]
    constructor
    · rintro ⟨p, found⟩
      rw [AList.lookup_empty] at found
      cases found
    · intro indexed
      simp [allocateSv, indexed.counted] at missing
  next sv allocated =>
    obtain ⟨t, scanned, rest⟩ := Option.bind_eq_some_iff.mp setup
    obtain rfl := Option.some.inj rest
    exact fmuVariableIndex_lookup_iff none_yet scanned output k

theorem fmuDefaultSignalsSetup_zero (codecs : Codecs) (doc : List ScalarVariable)
    {fmu : FmuInstanceData} (none_yet : NoScalars fmu) (hashed : fmu.directIndex = none) :
    ∃ gmu, fmuDefaultSignalsSetup codecs (some doc) fmu = some gmu ∧ ZeroIndexed doc gmu := by
  obtain ⟨gmu, setup, indexed, direct⟩ := fmuDefaultSignalsSetup_scalars codecs doc none_yet
  refine ⟨gmu, setup, ?_, ?_, direct.trans hashed⟩
  · intro output k
    obtain ⟨scalar, first, setup⟩ := Option.bind_eq_some_iff.mp setup
    obtain ⟨binary, second, rest⟩ := Option.bind_eq_some_iff.mp setup
    obtain rfl := Option.some.inj rest
    rw [← setupSv_lookup_iff none_yet first output k]
    obtain ⟨hmu, svs, again, same⟩ := setupSv_binary codecs doc scalar.1 scalar.2
    obtain rfl := Option.some.inj (again.symm.trans second)
    rw [← same.variableMap output]
    cases output with
    | false => exact Iff.rfl
    | true => exact Iff.rfl
  · intro k p points
    obtain ⟨x, value⟩ := Option.ne_none_iff_exists'.mp (indexed.valid k p points)
    obtain ⟨scalar, first, setup⟩ := Option.bind_eq_some_iff.mp setup
    obtain ⟨binary, second, rest⟩ := Option.bind_eq_some_iff.mp setup
    obtain rfl := Option.some.inj rest
    have nothing : ZeroScalars [] := fun sv member => by cases member
    have zero := setupSv_zero (setupSv_zero nothing first) second
    obtain ⟨sv, vector, found⟩ := Option.bind_eq_some_iff.mp value
    rw [value, zero sv (List.mem_of_getElem? vector) p.vi x found]

theorem ZeroIndexed.pointer_iff {doc : List ScalarVariable} {fmu : FmuInstanceData}
    (indexed : ZeroIndexed doc fmu) (vr : UInt32) :
    (∃ p, fmu.scalarPointer (vrIdx vr) = some p) ↔ ReadableReference doc vr := by
  rw [ReadableReference, ← indexed.lookup, ← indexed.lookup, FmuInstanceData.scalarPointer]
  cases output : fmu.scalarOutput.lookup (vrIdx vr) with
  | none => simp [FmuInstanceData.variableMap, output]
  | some p => simp [FmuInstanceData.variableMap, output]

theorem fmuRegisterVar_zero (keys : KeyLen) (fmu : FmuInstanceData) (vt : VarTable) (vr : UInt32)
    (input : Bool) (offset : Nat) : (fmuRegisterVar keys fmu vt vr input offset).2 = 0 := by
  unfold fmuRegisterVar
  split <;> rfl

theorem ZeroIndexed.yieldsStart_readable {doc : List ScalarVariable} {fmu : FmuInstanceData}
    (indexed : ZeroIndexed doc fmu) (keys : KeyLen) (vr : UInt32) (start : Option Double) :
    YieldsStart keys fmu vr start ↔ ∀ x, start = some x → x = 0 ∧ ReadableReference doc vr := by
  have returned : ∀ slot, (fmi2GetReal fmu [(vr, slot)]).2 =
      [((fmu.scalarPointer (vrIdx vr)).bind fmu.getScalar).getD slot] :=
    fmi2GetReal_single indexed.hashed vr
  constructor
  · rintro ⟨read, registered⟩ x rfl
    have zero : x = 0 := by
      rw [← show _ = x from registered .null true 0, fmuRegisterVar_zero]
    refine ⟨zero, (indexed.pointer_iff vr).mp ?_⟩
    by_contra missing
    have nothing : fmu.scalarPointer (vrIdx vr) = none :=
      Option.eq_none_iff_forall_ne_some.mpr fun p found => missing ⟨p, found⟩
    have kept := (returned 1).symm.trans (read x rfl 1)
    rw [nothing, zero] at kept
    have different : ¬ [(1 : Double)] = [0] := by decide
    exact different kept
  · intro zero
    constructor
    · rintro x rfl slot
      obtain ⟨rfl, readable⟩ := zero x rfl
      obtain ⟨p, found⟩ := (indexed.pointer_iff vr).mpr readable
      rw [returned, found, Option.bind_some,
        indexed.zero _ p (FmuInstanceData.points_of_scalarPointer found)]
      rfl
    · intro vt input offset
      rw [fmuRegisterVar_zero]
      cases start with
      | none => rfl
      | some x => exact (zero x rfl).1.symm

/-- A start value is returned exactly when it is zero and its reference can be read. -/
theorem yieldsStart_iff (codecs : Codecs) (create : FmuCreate) (keys : KeyLen)
    (doc : List StartVariable) (loggingOn : Bool) :
    ∃ fmu, fmi2Instantiate codecs create doc loggingOn = some fmu ∧
      ∀ v ∈ doc, ∀ vr : UInt32, v.node.valueReference = Nat.repr vr.toNat →
        (YieldsStart keys fmu vr v.start ↔
          ∀ x, v.start = some x →
            x = 0 ∧ ReadableReference (doc.map StartVariable.node) vr) := by
  obtain ⟨gmu, setup, indexed⟩ := fmuDefaultSignalsSetup_zero codecs (doc.map StartVariable.node)
    (show NoScalars (freshInstance loggingOn) from ⟨rfl, rfl⟩) rfl
  refine ⟨create.run gmu, by rw [fmi2Instantiate, setup]; rfl, fun v member vr _ => ?_⟩
  have maps := create.maps gmu
  refine ZeroIndexed.yieldsStart_readable ⟨?_, ?_, maps.directIndex.trans indexed.hashed⟩
    keys vr v.start
  · intro output k
    rw [maps.variableMap output]
    exact indexed.lookup output k
  · intro k p points
    rw [create.values]
    exact indexed.zero k p (maps.points_iff.mp points)

def keepsAll : FmuCreate where
  run fmu := fmu
  maps _ := ⟨rfl, rfl, rfl⟩
  values _ _ := rfl

/-- A factor which starts at one is read and registered as zero. -/
theorem yieldsStart_factor :
    ∃ fmu, fmi2Instantiate (fun _ => false) keepsAll
        [⟨⟨"factor", "2", some "input", [.element "Real" []]⟩, some 0x3FF0000000000000⟩] false =
        some fmu ∧
      (fmi2GetReal fmu [(2, 7)]).2 = [0] ∧
      (fmuRegisterVar ⟨11, Nat.le_refl 11⟩ fmu .null 2 true 8).2 = 0 ∧
      ¬ YieldsStart ⟨11, Nat.le_refl 11⟩ fmu 2 (some 0x3FF0000000000000) := by
  refine ⟨_, rfl, ?_, fmuRegisterVar_zero .., fun yields => ?_⟩
  · decide
  · have start := yields.registered .null true 8
    rw [fmuRegisterVar_zero] at start
    exact absurd start (by decide)

end DseFmi.Fmu
