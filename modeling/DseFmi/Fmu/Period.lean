import DseFmi.Fmu.Binary
import DseFmi.Fmu.RoundTrip
import DseFmi.Library.LazyBuffers

/-!
# The binary inputs of a step

The signals behind the binary inputs are lazily cleared buffers. What a step is offered
is what was set since the step before it, in the order of the calls.
-/

namespace DseFmi.Fmu

open DseFmi.Library

structure BinaryVariable where
  valueReference : UInt32
  causality : Option String
  signal : FmuSignalVectorIndex
  encoding : Option String
  deriving DecidableEq, Repr

structure BinaryVariables where
  list : List BinaryVariable
  distinct : (list.map BinaryVariable.valueReference).Nodup
  small : ∀ v ∈ list, v.valueReference.toNat < 2 ^ 31

namespace BinaryVariables

def indexVariable (fmu : FmuInstanceData) (v : BinaryVariable) : FmuInstanceData :=
  let vr := Nat.repr v.valueReference.toNat
  indexBinaryFuncs (indexBinarySignal fmu v.signal vr v.causality) vr v.encoding

def index (vars : BinaryVariables) (fmu : FmuInstanceData) : FmuInstanceData :=
  vars.list.foldl indexVariable fmu

def input (vars : BinaryVariables) (vr : UInt32) : Option BinaryVariable :=
  vars.list.find? fun v => v.valueReference = vr ∧ v.causality = some "input"

def value (lib : CLib) (v : BinaryVariable) (text : CString) : List UInt8 :=
  if v.encoding = some "ascii85" then lib.dseAscii85Decode text else text.bytes

def valueSet (vars : BinaryVariables) (lib : CLib) (p : FmuSignalVectorIndex)
    (entry : UInt32 × Option CString) : List UInt8 :=
  match entry.2, vars.input entry.1 with
  | some text, some v => if v.signal = p then value lib v text else []
  | _, _ => []

def valuesSet (vars : BinaryVariables) (lib : CLib) (p : FmuSignalVectorIndex) :
    Call → List UInt8
  | .setString request => request.flatMap (vars.valueSet lib p)
  | .getString _ => []
  | .doStep _ _ _ => []

end BinaryVariables

theorem indexVariable_binaryRx (fmu : FmuInstanceData) (v : BinaryVariable) :
    (BinaryVariables.indexVariable fmu v).binaryRx =
      if v.causality = some "input" then
        fmu.binaryRx.insert (Nat.repr v.valueReference.toNat) v.signal
      else fmu.binaryRx := by
  unfold BinaryVariables.indexVariable indexBinaryFuncs indexBinarySignal
  by_cases output : v.causality = some "output"
  · have not_input : v.causality ≠ some "input" := by
      rw [output]
      decide
    simp only [if_pos output, if_neg not_input]
    split <;> rfl
  · simp only [if_neg output]
    split <;> split <;> rfl

theorem indexVariable_decodeFunc (fmu : FmuInstanceData) (v : BinaryVariable) :
    (BinaryVariables.indexVariable fmu v).decodeFunc =
      if v.encoding = some "ascii85" then
        fmu.decodeFunc.insert (Nat.repr v.valueReference.toNat) .dseAscii85Decode
      else fmu.decodeFunc := by
  have same : ∀ p vr causality,
      (indexBinarySignal fmu p vr causality).decodeFunc = fmu.decodeFunc := by
    intro p vr causality
    unfold indexBinarySignal
    split
    · rfl
    · split <;> rfl
  unfold BinaryVariables.indexVariable indexBinaryFuncs
  dsimp only
  split
  · rw [same]
  · rw [same]

theorem indexVariable_frame (fmu : FmuInstanceData) (v : BinaryVariable) :
    (BinaryVariables.indexVariable fmu v).data = fmu.data ∧
      (BinaryVariables.indexVariable fmu v).signalsReset = fmu.signalsReset := by
  unfold BinaryVariables.indexVariable indexBinaryFuncs indexBinarySignal
  dsimp only
  split <;> split
  · exact ⟨rfl, rfl⟩
  · split <;> exact ⟨rfl, rfl⟩
  · exact ⟨rfl, rfl⟩
  · split <;> exact ⟨rfl, rfl⟩

theorem repr_toNat_inj {v w : UInt32} : Nat.repr v.toNat = Nat.repr w.toNat ↔ v = w :=
  ⟨fun same => UInt32.toNat_inj.mp (Nat.repr_injective same), fun same => by rw [same]⟩

section Index

variable {β : Type} {f : FmuInstanceData → HashMap β} {q : BinaryVariable → Bool}
  {entry : BinaryVariable → β}

/-- A map that the variables passing a test enter holds their entries. -/
theorem lookup_foldl_indexVariable
    (step : ∀ fmu v, f (BinaryVariables.indexVariable fmu v) =
      if q v then (f fmu).insert (Nat.repr v.valueReference.toNat) (entry v) else f fmu)
    {list : List BinaryVariable} (distinct : (list.map BinaryVariable.valueReference).Nodup)
    (fmu : FmuInstanceData) (vr : UInt32) :
    (f (list.foldl BinaryVariables.indexVariable fmu)).lookup (Nat.repr vr.toNat) =
      ((list.find? fun v => v.valueReference = vr ∧ q v).map entry).or
        ((f fmu).lookup (Nat.repr vr.toNat)) := by
  induction list generalizing fmu with
  | nil => rfl
  | cons v list ih =>
      obtain ⟨fresh, distinct⟩ := List.nodup_cons.mp distinct
      simp only [List.foldl_cons]
      rw [ih distinct, step]
      by_cases found : v.valueReference = vr ∧ q v
      · have later : list.find? (fun w => w.valueReference = vr ∧ q w) = none := by
          refine List.find?_eq_none.mpr fun w member same => ?_
          have entered := (of_decide_eq_true same).1
          exact fresh (found.1.trans entered.symm ▸ List.mem_map_of_mem member)
        rw [later, if_pos found.2, List.find?_cons_of_pos (by simpa using found), found.1,
          AList.lookup_insert]
        rfl
      · rw [List.find?_cons_of_neg (by simpa using found)]
        by_cases enters : q v
        · have other : Nat.repr vr.toNat ≠ Nat.repr v.valueReference.toNat := fun same =>
            found ⟨(repr_toNat_inj.mp same).symm, enters⟩
          rw [if_pos enters, AList.lookup_insert_ne other]
        · rw [if_neg enters]

end Index

theorem lookup_foldl_indexVariable_ne {β : Type} {f : FmuInstanceData → HashMap β}
    {q : BinaryVariable → Bool} {entry : BinaryVariable → β}
    (step : ∀ fmu v, f (BinaryVariables.indexVariable fmu v) =
      if q v then (f fmu).insert (Nat.repr v.valueReference.toNat) (entry v) else f fmu)
    {k : String} (other : ∀ n, k ≠ Nat.repr n) (list : List BinaryVariable)
    (fmu : FmuInstanceData) :
    (f (list.foldl BinaryVariables.indexVariable fmu)).lookup k = (f fmu).lookup k := by
  induction list generalizing fmu with
  | nil => rfl
  | cons v list ih =>
      rw [List.foldl_cons, ih, step]
      split
      · rw [AList.lookup_insert_ne (other _)]
      · rfl

structure InputsIndexed (vars : BinaryVariables) (fmu : FmuInstanceData) : Prop where
  rx : ∀ vr, fmu.binaryRx.lookup (vrIdx vr) = (vars.input vr).map BinaryVariable.signal
  decode : ∀ lib vr v, vars.input vr = some v →
    ∀ text, decodeString lib fmu (vrIdx vr) text = BinaryVariables.value lib v text
  allocated : fmu.Allocated
  valid : ∀ vr v, vars.input vr = some v → fmu.getBinary v.signal ≠ none

/-- An instance before its binary variables are indexed; their signals are there. -/
structure BeforeIndex (vars : BinaryVariables) (fmu : FmuInstanceData) : Prop where
  rx : fmu.binaryRx = ∅
  decode : fmu.decodeFunc = ∅
  signalsReset : fmu.signalsReset = false
  allocated : fmu.Allocated
  valid : ∀ v ∈ vars.list, fmu.getBinary v.signal ≠ none

theorem BinaryVariables.input_some {vars : BinaryVariables} {vr : UInt32} {v : BinaryVariable}
    (found : vars.input vr = some v) :
    v ∈ vars.list ∧ v.valueReference = vr ∧ v.causality = some "input" := by
  have named := List.find?_some found
  simp only [decide_eq_true_eq] at named
  exact ⟨List.mem_of_find?_eq_some found, named⟩

theorem foldl_indexVariable_frame (list : List BinaryVariable) (fmu : FmuInstanceData) :
    (list.foldl BinaryVariables.indexVariable fmu).data = fmu.data ∧
      (list.foldl BinaryVariables.indexVariable fmu).signalsReset = fmu.signalsReset := by
  induction list generalizing fmu with
  | nil => exact ⟨rfl, rfl⟩
  | cons v list ih =>
      have first := indexVariable_frame fmu v
      have rest := ih (BinaryVariables.indexVariable fmu v)
      exact ⟨rest.1.trans first.1, rest.2.trans first.2⟩

theorem BeforeIndex.rx_lookup {vars : BinaryVariables} {fmu : FmuInstanceData}
    (before : BeforeIndex vars fmu) (vr : UInt32) :
    (vars.index fmu).binaryRx.lookup (vrIdx vr) =
      (vars.input vr).map BinaryVariable.signal := by
  have step : ∀ fmu v, (BinaryVariables.indexVariable fmu v).binaryRx =
      if decide (v.causality = some "input") then
        fmu.binaryRx.insert (Nat.repr v.valueReference.toNat) v.signal
      else fmu.binaryRx := by
    intro fmu v
    simp only [indexVariable_binaryRx, decide_eq_true_eq]
  by_cases small : vr.toNat < 2 ^ 31
  · rw [vrIdx_of_lt small, BinaryVariables.index,
      lookup_foldl_indexVariable (f := FmuInstanceData.binaryRx) step vars.distinct, before.rx]
    simp only [decide_eq_true_eq, AList.lookup_empty, Option.or_none]
    rfl
  · have missing : vars.input vr = none := by
      refine Option.eq_none_iff_forall_ne_some.mpr fun v found => small ?_
      obtain ⟨member, named, _⟩ := BinaryVariables.input_some found
      exact named ▸ vars.small v member
    rw [missing, BinaryVariables.index, lookup_foldl_indexVariable_ne
      (f := FmuInstanceData.binaryRx) step (vrIdx_ne_repr small), before.rx]
    rfl

theorem BeforeIndex.decode_lookup {vars : BinaryVariables} {fmu : FmuInstanceData}
    (before : BeforeIndex vars fmu) {vr : UInt32} {v : BinaryVariable}
    (found : vars.input vr = some v) :
    (vars.index fmu).decodeFunc.lookup (vrIdx vr) =
      if v.encoding = some "ascii85" then some .dseAscii85Decode else none := by
  have step : ∀ fmu v, (BinaryVariables.indexVariable fmu v).decodeFunc =
      if decide (v.encoding = some "ascii85") then
        fmu.decodeFunc.insert (Nat.repr v.valueReference.toNat) DecodeFunc.dseAscii85Decode
      else fmu.decodeFunc := by
    intro fmu v
    simp only [indexVariable_decodeFunc, decide_eq_true_eq]
  obtain ⟨member, rfl, _⟩ := BinaryVariables.input_some found
  have only : ∀ w ∈ vars.list, w.valueReference = v.valueReference → w = v := fun w listed same =>
    List.inj_on_of_nodup_map vars.distinct listed member same
  rw [vrIdx_of_lt (vars.small v member), BinaryVariables.index,
    lookup_foldl_indexVariable (f := FmuInstanceData.decodeFunc) step vars.distinct,
    before.decode]
  simp only [decide_eq_true_eq, AList.lookup_empty, Option.or_none]
  by_cases encoded : v.encoding = some "ascii85"
  · have any : (vars.list.find? fun w =>
        w.valueReference = v.valueReference ∧ w.encoding = some "ascii85").isSome := by
      rw [List.find?_isSome]
      exact ⟨v, member, by simpa using encoded⟩
    obtain ⟨w, hw⟩ := Option.isSome_iff_exists.mp any
    rw [hw, if_pos encoded]
    rfl
  · have no_one : (vars.list.find? fun w =>
        w.valueReference = v.valueReference ∧ w.encoding = some "ascii85") = none := by
      refine List.find?_eq_none.mpr fun w listed same => ?_
      simp only [decide_eq_true_eq] at same
      exact encoded (only w listed same.1 ▸ same.2)
    rw [no_one, if_neg encoded]
    rfl

theorem BeforeIndex.inputsIndexed {vars : BinaryVariables} {fmu : FmuInstanceData}
    (before : BeforeIndex vars fmu) : InputsIndexed vars (vars.index fmu) := by
  have frame := foldl_indexVariable_frame vars.list fmu
  refine ⟨before.rx_lookup, ?_, ?_, ?_⟩
  · intro lib vr v found text
    rw [decodeString, before.decode_lookup found, BinaryVariables.value]
    by_cases encoded : v.encoding = some "ascii85"
    · rw [if_pos encoded, if_pos encoded]
      rfl
    · rw [if_neg encoded, if_neg encoded]
  · intro sv member
    exact before.allocated sv (frame.1 ▸ member)
  · intro vr v found
    obtain ⟨member, _, _⟩ := BinaryVariables.input_some found
    have valid := before.valid v member
    rwa [FmuInstanceData.getBinary, ← frame.1] at valid

theorem InputsIndexed.of_same {vars : BinaryVariables} {fmu gmu : FmuInstanceData}
    (indexed : InputsIndexed vars fmu) (same : SameBinaryIndex fmu gmu) :
    InputsIndexed vars gmu := by
  refine ⟨fun vr => ?_, fun lib vr v found text => ?_, same.allocated indexed.allocated,
    fun vr v found => same.valid _ (indexed.valid vr v found)⟩
  · rw [same.rx]
    exact indexed.rx vr
  · rw [← indexed.decode lib vr v found text, decodeString, decodeString, same.decode]

abbrev RxSignal (vars : BinaryVariables) : Type :=
  { p : FmuSignalVectorIndex // ∃ vr v, vars.input vr = some v ∧ v.signal = p }

def contentAt (fmu : FmuInstanceData) (p : FmuSignalVectorIndex) : List UInt8 :=
  ((fmu.getBinary p).map fun s => s.buffer.content).getD []

def rxBuffers (vars : BinaryVariables) (fmu : FmuInstanceData) :
    LazyBuffers (RxSignal vars) UInt8 where
  cleared := fmu.signalsReset
  content p := contentAt fmu p.val

section Refinement

variable {vars : BinaryVariables} {lib : CLib} {fmu : FmuInstanceData}

theorem contentAt_modifyBinary_ne (fmu : FmuInstanceData) {p q : FmuSignalVectorIndex}
    (different : p ≠ q) (f : BinarySignal → BinarySignal) :
    contentAt (fmu.modifyBinary p f) q = contentAt fmu q := by
  rw [contentAt, getBinary_modifyBinary_ne fmu different, contentAt]

theorem contentAt_append {p : FmuSignalVectorIndex} (valid : fmu.getBinary p ≠ none)
    (data : List UInt8) :
    contentAt (fmu.modifyBinary p (lib.append data)) p = contentAt fmu p ++ data := by
  obtain ⟨s, found⟩ := Option.ne_none_iff_exists'.mp valid
  simp only [contentAt, getBinary_modifyBinary_self, found, Option.map_some, Option.getD_some]
  exact lib.content_append s.buffer data

theorem rxBuffers_reset (vars : BinaryVariables) (allocated : fmu.Allocated) :
    rxBuffers vars (fmuDefaultSignalsReset fmu) = (rxBuffers vars fmu).clear := by
  cases flag : fmu.signalsReset with
  | true =>
      rw [reset_of_signalsReset flag, LazyBuffers.clear]
      exact (if_pos flag).symm
  | false =>
      have pending : (rxBuffers vars fmu).cleared ≠ true := Bool.eq_false_iff.mp flag
      rw [LazyBuffers.clear, if_neg pending, rxBuffers, reset_signalsReset]
      congr 1
      funext p
      rw [contentAt, getBinary_reset allocated flag]
      cases fmu.getBinary p.val with
      | none => rfl
      | some s => simp

/-- Setting a string on an input appends its value to the buffer. -/
theorem rxBuffers_setString_input (indexed : InputsIndexed vars fmu) {vr : UInt32}
    {v : BinaryVariable} (found : vars.input vr = some v) (text : CString) :
    rxBuffers vars (setString lib fmu vr (some text)) =
      (rxBuffers vars fmu).append ⟨v.signal, vr, v, found, rfl⟩
        (BinaryVariables.value lib v text) := by
  have set : setString lib fmu vr (some text) =
      fmu.modifyBinary v.signal (lib.append (BinaryVariables.value lib v text)) := by
    rw [← indexed.decode lib vr v found text, setString, indexed.rx, found]
    rfl
  rw [set]
  apply congrArg (LazyBuffers.mk fmu.signalsReset)
  funext p
  by_cases same : p = ⟨v.signal, vr, v, found, rfl⟩
  · subst same
    rw [Function.update_self]
    exact contentAt_append (indexed.valid vr v found) _
  · rw [Function.update_of_ne same]
    apply contentAt_modifyBinary_ne
    intro equal
    exact same (Subtype.ext equal.symm)

theorem rxBuffers_setString_other (indexed : InputsIndexed vars fmu) {vr : UInt32}
    {value : Option CString} (other : value = none ∨ vars.input vr = none) :
    rxBuffers vars (setString lib fmu vr value) = rxBuffers vars fmu := by
  cases value with
  | none => rfl
  | some text =>
      have missing : vars.input vr = none := other.resolve_left (Option.some_ne_none text)
      rw [setString, indexed.rx, missing]
      rfl

theorem holds_setString (indexed : InputsIndexed vars fmu) (cleared : fmu.signalsReset = true)
    {pending : RxSignal vars → List UInt8} (holds : (rxBuffers vars fmu).Holds pending)
    (entry : UInt32 × Option CString) :
    (rxBuffers vars (setString lib fmu entry.1 entry.2)).Holds fun p =>
      pending p ++ vars.valueSet lib p.val entry := by
  obtain ⟨vr, value⟩ := entry
  cases input : vars.input vr with
  | none =>
      rw [rxBuffers_setString_other indexed (.inr input)]
      have nothing : ∀ p, vars.valueSet lib p (vr, value) = [] := by
        intro p
        rw [BinaryVariables.valueSet, input]
        cases value <;> rfl
      simpa only [nothing, List.append_nil] using holds
  | some v =>
      cases value with
      | none =>
          rw [rxBuffers_setString_other indexed (.inl rfl)]
          simpa only [BinaryVariables.valueSet, List.append_nil] using holds
      | some text =>
          rw [rxBuffers_setString_input indexed input]
          convert holds.append cleared ⟨v.signal, vr, v, input, rfl⟩
            (BinaryVariables.value lib v text) using 1
          funext p
          by_cases same : v.signal = p.val
          · have equal : p = ⟨v.signal, vr, v, input, rfl⟩ := Subtype.ext same.symm
            subst equal
            simp [BinaryVariables.valueSet, input]
          · rw [Function.update_of_ne (fun equal => same (by rw [equal]))]
            simp [BinaryVariables.valueSet, input, same]

/-- After the reset, the streams of all codecs are at their start. -/
def Rewound (fmu : FmuInstanceData) : Prop :=
  fmu.signalsReset = true → ∀ p s, fmu.getBinary p = some s → s.Rewound

theorem Rewound.reset (allocated : fmu.Allocated) (rewound : Rewound fmu) :
    Rewound (fmuDefaultSignalsReset fmu) := by
  intro _ p s found
  cases flag : fmu.signalsReset with
  | true =>
      rw [reset_of_signalsReset flag] at found
      exact rewound flag p s found
  | false =>
      rw [getBinary_reset allocated flag] at found
      obtain ⟨before, _, rfl⟩ := Option.map_eq_some_iff.mp found
      exact before.rewound_reset

theorem Rewound.setString (rewound : Rewound fmu) (vr : UInt32) (value : Option CString) :
    Rewound (setString lib fmu vr value) := by
  intro cleared p s found
  rw [signalsReset_setString] at cleared
  unfold DseFmi.Fmu.setString at found
  cases value with
  | none => exact rewound cleared p s found
  | some text =>
      cases hq : fmu.binaryRx.lookup (vrIdx vr) with
      | none =>
          rw [hq] at found
          exact rewound cleared p s found
      | some q =>
          rw [hq] at found
          dsimp only at found
          by_cases same : q = p
          · subst same
            rw [getBinary_modifyBinary_self] at found
            obtain ⟨before, hbefore, rfl⟩ := Option.map_eq_some_iff.mp found
            exact rewound cleared q before hbefore
          · rw [getBinary_modifyBinary_ne fmu same] at found
            exact rewound cleared p s found

end Refinement

/-- The invariant of a run; `period` are the calls since the last step. -/
structure PeriodInvariant (vars : BinaryVariables) (lib : CLib) (fmu : FmuInstanceData)
    (period : List Call) : Prop where
  indexed : InputsIndexed vars fmu
  holds : (rxBuffers vars fmu).Holds fun p => period.flatMap (vars.valuesSet lib p.val)
  rewound : Rewound fmu

section Runs

variable {vars : BinaryVariables} {lib : CLib} {fmu : FmuInstanceData} {period : List Call}

theorem BeforeIndex.periodInvariant (before : BeforeIndex vars fmu) (lib : CLib) :
    PeriodInvariant vars lib (vars.index fmu) [] := by
  have pending : (vars.index fmu).signalsReset = false :=
    (foldl_indexVariable_frame vars.list fmu).2.trans before.signalsReset
  refine ⟨before.inputsIndexed, ?_, fun cleared => ?_⟩
  · rw [rxBuffers, pending]
    exact LazyBuffers.holds_step _
  · rw [pending] at cleared
    exact absurd cleared (by decide)

theorem PeriodInvariant.reset (h : PeriodInvariant vars lib fmu period) :
    PeriodInvariant vars lib (fmuDefaultSignalsReset fmu) period := by
  have allocated := h.indexed.allocated
  refine ⟨h.indexed.of_same (sameBinaryIndex_reset allocated), ?_, h.rewound.reset allocated⟩
  rw [rxBuffers_reset vars allocated]
  exact h.holds.clear

/-- The loop of the setter appends what the request sets. -/
theorem setStrings_holds (request : List (UInt32 × Option CString))
    (indexed : InputsIndexed vars fmu) (cleared : fmu.signalsReset = true)
    (rewound : Rewound fmu) {pending : RxSignal vars → List UInt8}
    (holds : (rxBuffers vars fmu).Holds pending) :
    InputsIndexed vars (setStrings lib fmu request) ∧ Rewound (setStrings lib fmu request) ∧
      (rxBuffers vars (setStrings lib fmu request)).Holds fun p =>
        pending p ++ request.flatMap (vars.valueSet lib p.val) := by
  induction request generalizing fmu pending with
  | nil =>
      refine ⟨indexed, rewound, ?_⟩
      simp only [List.flatMap_nil, List.append_nil]
      exact holds
  | cons entry request ih =>
      have step := ih (indexed.of_same (sameBinaryIndex_setString lib fmu entry.1 entry.2))
        ((signalsReset_setString lib fmu entry.1 entry.2).trans cleared)
        (rewound.setString entry.1 entry.2) (holds_setString indexed cleared holds entry)
      refine ⟨step.1, step.2.1, ?_⟩
      simp only [List.flatMap_cons, ← List.append_assoc]
      exact step.2.2

theorem PeriodInvariant.setString (h : PeriodInvariant vars lib fmu period)
    (request : List (UInt32 × Option CString)) :
    PeriodInvariant vars lib (fmi2SetString lib fmu request) (period ++ [.setString request]) := by
  have reset := h.reset
  obtain ⟨indexed, rewound, holds⟩ := setStrings_holds request reset.indexed
    (reset_signalsReset fmu) reset.rewound reset.holds
  refine ⟨indexed, ?_, rewound⟩
  simp only [List.flatMap_append, List.flatMap_singleton]
  exact holds

theorem PeriodInvariant.getString (h : PeriodInvariant vars lib fmu period)
    (vrs : List UInt32) : PeriodInvariant vars lib fmu (period ++ [.getString vrs]) := by
  refine ⟨h.indexed, ?_, h.rewound⟩
  simpa [BinaryVariables.valuesSet] using h.holds

theorem PeriodInvariant.doStep (h : PeriodInvariant vars lib fmu period) (step : FmuStep)
    (t s : Double) : PeriodInvariant vars lib (fmi2DoStep step fmu t s).1 [] := by
  refine ⟨h.indexed.of_same (sameBinaryIndex_doStep step h.indexed.allocated t s), ?_, ?_⟩
  · exact LazyBuffers.holds_step _
  · intro cleared
    exact absurd (show false = true from cleared) (by decide)

/-- What the step function finds at an input: the pending bytes, and the stream before them. -/
theorem PeriodInvariant.offered (h : PeriodInvariant vars lib fmu period) {vr : UInt32}
    {v : BinaryVariable} (input : vars.input vr = some v) :
    ((offered fmu).getBinary v.signal).map (fun s => (s.buffer.content, s.ncodec.getD 0)) =
      some (period.flatMap (vars.valuesSet lib v.signal), 0) := by
  have reset := h.reset
  obtain ⟨table, marshalled⟩ := foldl_marshalToTable
    (fmuDefaultSignalsReset fmu).marshalList (fmuDefaultSignalsReset fmu)
  have same : (DseFmi.Fmu.offered fmu).getBinary v.signal =
      (fmuDefaultSignalsReset fmu).getBinary v.signal := by
    rw [DseFmi.Fmu.offered, marshalled]
    rfl
  obtain ⟨s, found⟩ := Option.ne_none_iff_exists'.mp (reset.indexed.valid vr v input)
  have rewound := reset.rewound (reset_signalsReset fmu) v.signal s found
  have content := congrFun ((LazyBuffers.holds_of_cleared (reset_signalsReset fmu)).mp reset.holds)
    ⟨v.signal, vr, v, input, rfl⟩
  simp only [rxBuffers, contentAt, found, Option.map_some, Option.getD_some] at content
  rw [same, found, Option.map_some, content, rewound]

theorem PeriodInvariant.offers (h : PeriodInvariant vars lib fmu period) {vr : UInt32}
    {v : BinaryVariable} (input : vars.input vr = some v) (calls : List Call) :
    (offers lib fmu calls).map (fun offer =>
        (offer.getBinary v.signal).map fun s => (s.buffer.content, s.ncodec.getD 0)) =
      (periodsFrom period calls).map fun period =>
        some (period.flatMap (vars.valuesSet lib v.signal), 0) := by
  induction calls generalizing fmu period with
  | nil => rfl
  | cons call calls ih =>
      cases call with
      | setString request => exact ih (h.setString request)
      | getString vrs => exact ih (h.getString vrs)
      | doStep step t s =>
          simp only [DseFmi.Fmu.offers, periodsFrom, List.map_cons, h.offered input]
          exact congrArg _ (ih (h.doStep step t s))

end Runs

/-- Every step is offered, on each input, what was set since the step before it, and the
stream of a codec stands at its start. -/
theorem fmi2DoStep_offers (lib : CLib) (vars : BinaryVariables) {fmu : FmuInstanceData}
    (before : BeforeIndex vars fmu) (calls : List Call) :
    ∀ v ∈ vars.list, v.causality = some "input" →
      (offers lib (vars.index fmu) calls).map (fun offer =>
          (offer.getBinary v.signal).map fun s => (s.buffer.content, s.ncodec.getD 0)) =
        (periods calls).map fun period =>
          some (period.flatMap (vars.valuesSet lib v.signal), 0) := by
  intro v member causality
  have input : vars.input v.valueReference = some v := by
    have any : (vars.input v.valueReference).isSome := by
      rw [BinaryVariables.input, List.find?_isSome]
      exact ⟨v, member, by simpa using causality⟩
    obtain ⟨w, found⟩ := Option.isSome_iff_exists.mp any
    obtain ⟨listed, named, _⟩ := BinaryVariables.input_some found
    rw [found, List.inj_on_of_nodup_map vars.distinct listed member named]
  exact (before.periodInvariant lib).offers input calls

def Buffer.append (b : Buffer) (data : List UInt8) : Buffer where
  binary := some (b.content ++ data ++ (b.binary.getD []).drop (b.length + data.length))
  length := b.length + data.length
  length_le := by simp

theorem Buffer.content_append (b : Buffer) (data : List UInt8) :
    (b.append data).content = b.content ++ data := by
  simp [content, append, List.take_append, b.length_le]

/-- The text `Hello World` with its terminator. -/
def greeting : List UInt8 := [72, 101, 108, 108, 111, 32, 87, 111, 114, 108, 100, 0]

def greetingAscii85 : CString where
  bytes := [56, 55, 99, 85, 82, 68, 93, 105, 44, 34, 69, 98, 111, 55, 100]
  no_nul := by decide

def greetingLib : CLib where
  dseBufferAppend := Buffer.append
  dseAscii85Encode data := if data = greeting then greetingAscii85 else ⟨[], List.not_mem_nil⟩
  dseAscii85Decode text := if text = greetingAscii85 then greeting else []
  content_append := Buffer.content_append

def twoInputs : BinaryVariables where
  list := [⟨1, some "input", ⟨0, 0⟩, none⟩, ⟨2, some "input", ⟨0, 0⟩, some "ascii85"⟩]
  distinct := by decide
  small := by decide

/-- The signal has a codec, and bytes that were left there. -/
def oneSignal : FmuInstanceData :=
  let buffer : Buffer := ⟨some [7, 7, 7], 2, by decide⟩
  { FmuInstanceData.null with
    data := [⟨1, [some "network"], none, some [⟨buffer, none, some 2⟩]⟩] }

theorem beforeIndex_oneSignal : BeforeIndex twoInputs oneSignal where
  rx := rfl
  decode := rfl
  signalsReset := rfl
  allocated := by
    intro sv member binary stored
    rw [List.mem_singleton.mp member] at stored ⊢
    rw [← Option.some.inj stored]
    rfl
  valid := by decide

def idleStep : FmuStep where
  run fmu _ _ := (fmu, 0)
  binaryRx _ _ _ := rfl
  decodeFunc _ _ _ := rfl
  allocated _ _ _ := id
  valid _ _ _ _ := id

theorem fmi2DoStep_offers_twoInputs :
    let a : CString := ⟨[97], by decide⟩
    let calls : List Call :=
      [.setString [(1, some a), (2, some greetingAscii85)], .setString [(1, some a)],
        .doStep idleStep 0 1, .getString [1], .setString [(2, some greetingAscii85), (1, none)],
        .doStep idleStep 1 1, .doStep idleStep 2 1]
    (offers greetingLib (twoInputs.index oneSignal) calls).map (fun offer =>
        (offer.getBinary ⟨0, 0⟩).map fun s => (s.buffer.content, s.ncodec.getD 0)) =
      [some (97 :: greeting ++ [97], 0), some (greeting, 0), some ([], 0)] :=
  fmi2DoStep_offers greetingLib twoInputs beforeIndex_oneSignal _
    ⟨1, some "input", ⟨0, 0⟩, none⟩ (by decide) rfl

end DseFmi.Fmu
