import DseFmi.Fmu.Real
import DseFmi.Fmu.ScalarIndex

/-!
# Setting and getting reals

The accessors print a value reference as a signed integer, the index uses the text of the
model description. The two agree below `2 ^ 31`; from there on the accessors look for a
key that no model description has.
-/

namespace DseFmi.Fmu

open DseFmi.Library

theorem vrIdx_of_lt {vr : UInt32} (small : vr.toNat < 2 ^ 31) : vrIdx vr = Nat.repr vr.toNat :=
  printInt_of_lt (by decide) small

theorem vrIdx_ne_repr {vr : UInt32} (large : ¬ vr.toNat < 2 ^ 31) (n : Nat) :
    vrIdx vr ≠ Nat.repr n :=
  printInt_ne_repr (by decide) (Nat.not_lt.mp large) n

/-- Distinct references, written as decimal numbers of 32 bits. -/
structure ModelDescription where
  scalarVariables : List ScalarVariable
  distinct : (scalarVariables.map ScalarVariable.valueReference).Nodup
  canonical : ∀ node ∈ scalarVariables, ∃ vr : UInt32, node.valueReference = Nat.repr vr.toNat

theorem ModelDescription.eq_of_valueReference (md : ModelDescription) {a b : ScalarVariable}
    (ha : a ∈ md.scalarVariables) (hb : b ∈ md.scalarVariables)
    (same : a.valueReference = b.valueReference) :
    a = b :=
  List.inj_on_of_nodup_map md.distinct ha hb same

/-- A state of an instance that was set up as `fmu`: the storage holds any values. -/
structure StateOf (fmu state : FmuInstanceData) : Prop where
  maps : SameScalarMaps fmu state
  storage : ∀ p, fmu.getScalar p ≠ none → state.getScalar p ≠ none

theorem FmuInstanceData.points_of_scalarPointer {fmu : FmuInstanceData} {k : String}
    {p : FmuSignalVectorIndex} (found : fmu.scalarPointer k = some p) : Points fmu k p := by
  unfold scalarPointer at found
  split at found
  next output => exact .inl (output.trans found)
  next => exact .inr found

theorem SameScalarMaps.scalarPointer {fmu gmu : FmuInstanceData} (h : SameScalarMaps fmu gmu)
    (k : String) : gmu.scalarPointer k = fmu.scalarPointer k := by
  rw [FmuInstanceData.scalarPointer, FmuInstanceData.scalarPointer, h.output, h.input]

theorem setScalar_same (fmu : FmuInstanceData) (p : FmuSignalVectorIndex) (x : Double) :
    SameScalarMaps fmu (fmu.setScalar p x) :=
  ⟨rfl, rfl, rfl⟩

theorem fmi2GetReal_single {fmu : FmuInstanceData} (indexed : fmu.directIndex = none)
    (vr : UInt32) (slot : Double) :
    (fmi2GetReal fmu [(vr, slot)]).2 =
      [((fmu.scalarPointer (vrIdx vr)).bind fmu.getScalar).getD slot] := by
  simp only [fmi2GetReal, getReals, getReal, indexed, getIndexed]
  cases fmu.scalarPointer (vrIdx vr) <;> rfl

theorem fmi2SetReal_single {fmu : FmuInstanceData} (indexed : fmu.directIndex = none)
    (vr : UInt32) (x : Double) :
    fmi2SetReal fmu [(vr, x)] =
      match fmu.scalarInput.lookup (vrIdx vr) with
      | none => fmu
      | some p => fmu.setScalar p x := by
  have step : setReal fmi2Errors fmu vr x = setIndexed fmu vr x := by rw [setReal, indexed]
  exact step

/-- A set is read back, and no other declared variable changes. -/
def SetThenGet (md : ModelDescription) (state : FmuInstanceData) (vr : UInt32) (x : Double) :
    Prop :=
  (∀ slot, (fmi2GetReal (fmi2SetReal state [(vr, x)]) [(vr, slot)]).2 = [x]) ∧
    ∀ other ∈ md.scalarVariables, other.causality = some "input" ∨ other.causality = some "output" →
      ∀ w : UInt32, w ≠ vr → other.valueReference = Nat.repr w.toNat → ∀ slot,
        (fmi2GetReal (fmi2SetReal state [(vr, x)]) [(w, slot)]).2 =
          (fmi2GetReal state [(w, slot)]).2

section States

variable {md : ModelDescription} {fmu state : FmuInstanceData}
  (indexed : ScalarsIndexed md.scalarVariables fmu) (hstate : StateOf fmu state)

include indexed in
theorem ScalarsIndexed.key_repr {k : String} {p : FmuSignalVectorIndex}
    (points : Points fmu k p) : ∃ n, k = Nat.repr n := by
  have known : ∃ node ∈ md.scalarVariables, node.valueReference = k := by
    rcases points with found | found
    · obtain ⟨node, member, named, _⟩ := indexed.keys.output k p found
      exact ⟨node, member, named⟩
    · obtain ⟨node, member, named, _⟩ := indexed.keys.input k p found
      exact ⟨node, member, named⟩
  obtain ⟨node, member, rfl⟩ := known
  obtain ⟨vr, text⟩ := md.canonical node member
  exact ⟨_, text⟩

include indexed in
/-- Different references lead to different entries. -/
theorem ScalarsIndexed.entry_ne {v w : UInt32} (different : w ≠ v) {p q : FmuSignalVectorIndex}
    (hp : Points fmu (vrIdx v) p) (hq : Points fmu (vrIdx w) q) : p ≠ q := by
  rintro rfl
  have small : ∀ {u : UInt32}, Points fmu (vrIdx u) p → u.toNat < 2 ^ 31 := by
    intro u points
    obtain ⟨n, text⟩ := indexed.key_repr points
    by_contra large
    exact vrIdx_ne_repr large n text
  have same := indexed.keys.injective _ _ p hq hp
  rw [vrIdx_of_lt (small hp), vrIdx_of_lt (small hq)] at same
  exact different (UInt32.toNat_inj.mp (Nat.repr_injective same))

include indexed hstate in
theorem setThenGet_of_lt (hashed : state.directIndex = none) {node : ScalarVariable}
    {name : String} (member : node ∈ md.scalarVariables)
    (first : firstElement node.children = some name) (scalar : isScalarVar name = true)
    (input : node.causality = some "input") {vr : UInt32}
    (text : node.valueReference = Nat.repr vr.toNat) (small : vr.toNat < 2 ^ 31) (x : Double) :
    SetThenGet md state vr x := by
  have key : vrIdx vr = node.valueReference := (vrIdx_of_lt small).trans text.symm
  obtain ⟨p, found⟩ := indexed.input node member name first scalar input
  have points : Points fmu (vrIdx vr) p := .inr (key ▸ found)
  have not_output : fmu.scalarOutput.lookup (vrIdx vr) = none := by
    refine Option.eq_none_iff_forall_ne_some.mpr fun q output => ?_
    obtain ⟨other, listed, named, causality⟩ := indexed.keys.output _ q output
    obtain rfl := md.eq_of_valueReference listed member (named.trans key)
    rw [input] at causality
    exact absurd causality (by decide)
  have pointer : fmu.scalarPointer (vrIdx vr) = some p := by
    rw [FmuInstanceData.scalarPointer, not_output, key]
    exact found
  have set : fmi2SetReal state [(vr, x)] = state.setScalar p x := by
    rw [fmi2SetReal_single hashed, hstate.maps.input, key, found]
  have after := setScalar_same state p x
  refine ⟨fun slot => ?_, fun other _ _ w different _ slot => ?_⟩
  · rw [set, fmi2GetReal_single (after.directIndex.trans hashed), after.scalarPointer,
      hstate.maps.scalarPointer, pointer, Option.bind_some,
      getScalar_setScalar_self (hstate.storage p (indexed.valid _ p points))]
    rfl
  · rw [set, fmi2GetReal_single (after.directIndex.trans hashed), fmi2GetReal_single hashed,
      after.scalarPointer, hstate.maps.scalarPointer]
    cases hq : fmu.scalarPointer (vrIdx w) with
    | none => rfl
    | some q =>
        have other_points := FmuInstanceData.points_of_scalarPointer hq
        rw [Option.bind_some, Option.bind_some,
          getScalar_setScalar_ne (indexed.entry_ne different points other_points)]

include indexed hstate in
/-- From `2 ^ 31` on, nothing is found and the slot of the getter stays as it is. -/
theorem fmi2GetReal_large (hashed : state.directIndex = none) {vr : UInt32}
    (large : ¬ vr.toNat < 2 ^ 31) (x slot : Double) :
    (fmi2GetReal (fmi2SetReal state [(vr, x)]) [(vr, slot)]).2 = [slot] := by
  have missing : ∀ p, ¬ Points fmu (vrIdx vr) p := by
    intro p points
    obtain ⟨n, text⟩ := indexed.key_repr points
    exact vrIdx_ne_repr large n text
  have pointer : fmu.scalarPointer (vrIdx vr) = none :=
    Option.eq_none_iff_forall_ne_some.mpr fun p found =>
      missing p (FmuInstanceData.points_of_scalarPointer found)
  have not_input : fmu.scalarInput.lookup (vrIdx vr) = none :=
    Option.eq_none_iff_forall_ne_some.mpr fun p found => missing p (.inr found)
  have set : fmi2SetReal state [(vr, x)] = state := by
    rw [fmi2SetReal_single hashed, hstate.maps.input, not_input]
  rw [set, fmi2GetReal_single hashed, hstate.maps.scalarPointer, pointer]
  rfl

end States

/-- After the setup, a set of a scalar input is read back exactly when its value reference
is below `2 ^ 31`. -/
theorem fmi2SetReal_fmi2GetReal_iff (codecs : Codecs) (md : ModelDescription)
    {fmu : FmuInstanceData} (fresh : NoScalars fmu) (hashed : fmu.directIndex = none) :
    ∃ gmu, fmuDefaultSignalsSetup codecs (some md.scalarVariables) fmu = some gmu ∧
      ∀ node ∈ md.scalarVariables, ∀ name, firstElement node.children = some name →
        isScalarVar name = true → node.causality = some "input" →
        ∀ vr : UInt32, node.valueReference = Nat.repr vr.toNat →
          ∀ state, StateOf gmu state → ∀ x,
            (SetThenGet md state vr x ↔ vr.toNat < 2 ^ 31) := by
  obtain ⟨gmu, setup, indexed, direct⟩ :=
    fmuDefaultSignalsSetup_scalars codecs md.scalarVariables fresh
  refine ⟨gmu, setup, ?_⟩
  intro node member name first scalar input vr text state hstate x
  have state_hashed : state.directIndex = none :=
    hstate.maps.directIndex.trans (direct.trans hashed)
  constructor
  · intro roundTrip
    by_contra large
    have read := roundTrip.1 (x + 1)
    rw [fmi2GetReal_large indexed hstate state_hashed large] at read
    have equal : x + 1 = x := (List.cons.inj read).1
    bv_omega
  · intro small
    exact setThenGet_of_lt indexed hstate state_hashed member first scalar input text small x

def realInput (vr : UInt32) : ModelDescription where
  scalarVariables := [⟨"input", Nat.repr vr.toNat, some "input", [.element "Real" []]⟩]
  distinct := List.nodup_singleton _
  canonical := by
    intro node member
    exact ⟨vr, by rw [List.mem_singleton.mp member]⟩

theorem noScalars_null : NoScalars FmuInstanceData.null := ⟨rfl, rfl⟩

theorem fmi2SetReal_fmi2GetReal_realInput :
    ∃ gmu, fmuDefaultSignalsSetup (fun _ => false) (some (realInput 7).scalarVariables)
        FmuInstanceData.null = some gmu ∧ (SetThenGet (realInput 7) gmu 7 42 ↔ 7 < 2 ^ 31) := by
  obtain ⟨gmu, setup, roundTrip⟩ := fmi2SetReal_fmi2GetReal_iff (fun _ => false) (realInput 7)
    noScalars_null rfl
  exact ⟨gmu, setup, roundTrip _ (List.mem_singleton.mpr rfl) "Real" rfl rfl rfl 7 rfl gmu
    ⟨⟨rfl, rfl, rfl⟩, fun _ valid => valid⟩ 42⟩

/-- The smallest reference that is not found. -/
theorem not_setThenGet_realInput :
    ∃ gmu, fmuDefaultSignalsSetup (fun _ => false) (some (realInput 2147483648).scalarVariables)
        FmuInstanceData.null = some gmu ∧
      ¬ SetThenGet (realInput 2147483648) gmu 2147483648 42 := by
  obtain ⟨gmu, setup, indexed, direct⟩ := fmuDefaultSignalsSetup_scalars (fun _ => false)
    (realInput 2147483648).scalarVariables noScalars_null
  refine ⟨gmu, setup, fun roundTrip => ?_⟩
  have read := roundTrip.1 0
  rw [fmi2GetReal_large indexed ⟨⟨rfl, rfl, rfl⟩, fun _ valid => valid⟩ direct (by decide)] at read
  exact absurd read (by decide)

end DseFmi.Fmu
