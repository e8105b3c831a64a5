import Mathlib.Algebra.GroupWithZero.Nat
import DseFmi.Fmu.ScalarIndex
import DseFmi.Library.TakeWhile

/-!
# Counted and indexed variables

A pass counts every supported child element of a variable, but its scan of the children
ends at the first element that is not supported. The two agree exactly when no supported
element follows one that is not.
-/

namespace DseFmi.Fmu

open DseFmi.Library

def elementNames (children : List XmlChild) : List String :=
  children.filterMap fun
    | .element name _ => some name
    | .other => none

def SupportedFirst (isBinary : Bool) (children : List XmlChild) : Prop :=
  (elementNames children).Pairwise fun before after =>
    supportedVar isBinary after = true → supportedVar isBinary before = true

instance (isBinary : Bool) (children : List XmlChild) :
    Decidable (SupportedFirst isBinary children) :=
  inferInstanceAs (Decidable (List.Pairwise _ _))

def reachedChildren (isBinary : Bool) (children : List XmlChild) : List String :=
  (elementNames children).takeWhile fun name => supportedVar isBinary name

section Children

variable {isBinary : Bool} {children : List XmlChild} {name : String} {tools : List XmlTool}

@[simp] theorem elementNames_other :
    elementNames (.other :: children) = elementNames children := rfl

@[simp] theorem elementNames_element :
    elementNames (.element name tools :: children) = name :: elementNames children := rfl

theorem reachedChildren_of_pos (supported : supportedVar isBinary name = true) :
    reachedChildren isBinary (.element name tools :: children) =
      name :: reachedChildren isBinary children := by
  simp [reachedChildren, supported]

theorem reachedChildren_of_neg (unsupported : ¬ supportedVar isBinary name = true) :
    reachedChildren isBinary (.element name tools :: children) = [] := by
  simp [reachedChildren, unsupported]

theorem countChildren_eq (isBinary : Bool) (children : List XmlChild) :
    countChildren isBinary children =
      ((elementNames children).filter fun name => supportedVar isBinary name).length := by
  induction children with
  | nil => rfl
  | cons child children ih =>
      cases child with
      | other => simpa [countChildren] using ih
      | element name tools =>
          by_cases supported : supportedVar isBinary name = true
          · simpa [countChildren, supported] using ih
          · simpa [countChildren, supported] using ih

theorem reachedChildren_sublist (isBinary : Bool) (children : List XmlChild) :
    (reachedChildren isBinary children).Sublist
      ((elementNames children).filter fun name => supportedVar isBinary name) := by
  have all_pass : (reachedChildren isBinary children).filter (supportedVar isBinary ·) =
      reachedChildren isBinary children :=
    List.filter_eq_self.mpr fun name member => List.mem_takeWhile_imp member
  rw [← all_pass]
  exact (List.takeWhile_sublist _).filter _

theorem reachedChildren_le (isBinary : Bool) (children : List XmlChild) :
    (reachedChildren isBinary children).length ≤ countChildren isBinary children := by
  rw [countChildren_eq]
  exact (reachedChildren_sublist isBinary children).length_le

/-- All counted elements are reached exactly when the supported ones come first. -/
theorem reachedChildren_eq_iff :
    (reachedChildren isBinary children).length = countChildren isBinary children ↔
      SupportedFirst isBinary children := by
  rw [countChildren_eq, SupportedFirst, ← takeWhile_eq_filter_iff]
  constructor
  · exact (reachedChildren_sublist isBinary children).eq_of_length
  · intro same
    exact congrArg List.length same

theorem firstElement_eq (children : List XmlChild) :
    firstElement children = (elementNames children).head? := by
  induction children with
  | nil => rfl
  | cons child children ih =>
      cases child with
      | other => simpa [firstElement] using ih
      | element name tools => simp [firstElement]

end Children

def causalityText (output : Bool) : String := if output then "output" else "input"

/-- The map a pass enters the variables of a causality into. -/
def FmuInstanceData.variableMap (fmu : FmuInstanceData) (isBinary output : Bool) :
    HashMap FmuSignalVectorIndex :=
  match isBinary, output with
  | false, false => fmu.scalarInput
  | false, true => fmu.scalarOutput
  | true, false => fmu.binaryRx
  | true, true => fmu.binaryTx

structure VariableStep (isBinary : Bool) (pos : Nat) (node : ScalarVariable)
    (s t : IndexState) : Prop where
  room : s.svIdx < s.sv.count
  svIdx : t.svIdx = s.svIdx + 1
  count : t.sv.count = s.sv.count
  signal : t.sv.signal = s.sv.signal.set s.svIdx (some node.name)
  map : ∀ output, t.fmu.variableMap isBinary output =
    if node.causality = some (causalityText output) then
      (s.fmu.variableMap isBinary output).insert node.valueReference ⟨pos, s.svIdx⟩
    else s.fmu.variableMap isBinary output

theorem variableMap_scalar (fmu : FmuInstanceData) (p : FmuSignalVectorIndex) (vr : String)
    (causality : Option String) (output : Bool) :
    (indexScalarVariable fmu p vr causality).variableMap false output =
      if causality = some (causalityText output) then
        (fmu.variableMap false output).insert vr p
      else fmu.variableMap false output := by
  unfold indexScalarVariable
  by_cases is_output : causality = some "output"
  · cases output <;> simp [is_output, causalityText, FmuInstanceData.variableMap]
  · by_cases is_input : causality = some "input"
    · cases output <;> simp [is_input, causalityText, FmuInstanceData.variableMap]
    · cases output <;> simp [is_output, is_input, causalityText, FmuInstanceData.variableMap]

theorem variableMap_binary (fmu : FmuInstanceData) (p : FmuSignalVectorIndex) (vr : String)
    (causality encoding : Option String) (output : Bool) :
    (indexBinaryFuncs (indexBinarySignal fmu p vr causality) vr encoding).variableMap true output =
      if causality = some (causalityText output) then
        (fmu.variableMap true output).insert vr p
      else fmu.variableMap true output := by
  have funcs : ∀ gmu, (indexBinaryFuncs gmu vr encoding).variableMap true output =
      gmu.variableMap true output := by
    intro gmu
    unfold indexBinaryFuncs
    split <;> cases output <;> rfl
  rw [funcs]
  unfold indexBinarySignal
  by_cases is_output : causality = some "output"
  · cases output <;> simp [is_output, causalityText, FmuInstanceData.variableMap]
  · by_cases is_input : causality = some "input"
    · cases output <;> simp [is_input, causalityText, FmuInstanceData.variableMap]
    · cases output <;> simp [is_output, is_input, causalityText, FmuInstanceData.variableMap]

theorem indexVariable_step {codecs : Codecs} {isBinary : Bool} {pos : Nat}
    {node : ScalarVariable} {s t : IndexState}
    (indexed : indexVariable codecs isBinary pos node s = some t) :
    VariableStep isBinary pos node s t := by
  unfold indexVariable at indexed
  split at indexed
  next room =>
    cases isBinary with
    | false =>
        simp only [Bool.false_eq_true, if_false, Option.some.injEq] at indexed
        subst indexed
        exact ⟨room, rfl, rfl, rfl, variableMap_scalar s.fmu _ _ _⟩
    | true =>
        simp only [if_true, Option.some.injEq] at indexed
        subst indexed
        exact ⟨room, rfl, rfl, rfl, variableMap_binary s.fmu _ _ _ _⟩
  next => cases indexed

/-- The slots before the index are filled and the others are empty. -/
def SlotsFilled (s : IndexState) : Prop :=
  ∃ names : List String, names.length = s.svIdx ∧
    s.sv.signal = names.map some ++ List.replicate (s.sv.count - s.svIdx) none

def filledSlots (sv : FmuSignalVector) : Nat := sv.signal.countP Option.isSome

theorem SlotsFilled.filledSlots {s : IndexState} (h : SlotsFilled s) :
    filledSlots s.sv = s.svIdx := by
  obtain ⟨names, length, signal⟩ := h
  have all_some : (names.map some).countP Option.isSome = names.length := by
    simp [List.countP_map, Function.comp_def]
  have all_none : (List.replicate (s.sv.count - s.svIdx) (none : Option String)).countP
      Option.isSome = 0 := by
    simp [List.countP_replicate]
  rw [Fmu.filledSlots, signal, List.countP_append, all_some, all_none, length, Nat.add_zero]

section Slots

variable {codecs : Codecs} {isBinary : Bool} {pos : Nat} {node : ScalarVariable}
  {s t : IndexState}

theorem SlotsFilled.step (h : SlotsFilled s) (step : VariableStep isBinary pos node s t) :
    SlotsFilled t := by
  obtain ⟨names, length, signal⟩ := h
  have room := step.room
  have one_more : s.sv.count - s.svIdx = (s.sv.count - (s.svIdx + 1)) + 1 := by omega
  refine ⟨names ++ [node.name], by simp [length, step.svIdx], ?_⟩
  rw [step.signal, signal, step.svIdx, step.count, one_more, List.replicate_succ,
    List.set_append_right _ _ (by simp [length])]
  simp [length]

theorem VariableStep.signal_kept (step : VariableStep isBinary pos node s t) {i : Nat}
    (before : i < s.svIdx) : t.sv.signal[i]? = s.sv.signal[i]? := by
  rw [step.signal, List.getElem?_set_ne (Nat.ne_of_gt before)]

end Slots

section Scan

variable {codecs : Codecs} {isBinary : Bool} {pos : Nat}

theorem indexChildren_svIdx {node : ScalarVariable} {children : List XmlChild}
    {s t : IndexState} (indexed : indexChildren codecs isBinary pos node s children = some t) :
    t.svIdx = s.svIdx + (reachedChildren isBinary children).length := by
  induction children generalizing s with
  | nil =>
      obtain rfl : s = t := Option.some.inj indexed
      rfl
  | cons child children ih =>
      cases child with
      | other => exact ih indexed
      | element name tools =>
          rw [indexChildren] at indexed
          split at indexed
          next supported =>
            obtain ⟨u, entered, rest⟩ := Option.bind_eq_some_iff.mp indexed
            rw [ih rest, (indexVariable_step entered).svIdx, reachedChildren_of_pos supported,
              List.length_cons]
            omega
          next unsupported =>
            obtain rfl : s = t := Option.some.inj indexed
            simp [reachedChildren_of_neg unsupported]

theorem fmuVariableIndex_svIdx {doc : List ScalarVariable} {s t : IndexState}
    (indexed : fmuVariableIndex codecs isBinary pos doc s = some t) :
    t.svIdx = s.svIdx + (doc.map fun node =>
      (reachedChildren isBinary node.children).length).sum := by
  induction doc generalizing s with
  | nil =>
      obtain rfl : s = t := Option.some.inj indexed
      rfl
  | cons node doc ih =>
      rw [fmuVariableIndex, List.foldlM_cons] at indexed
      obtain ⟨u, entered, rest⟩ := Option.bind_eq_some_iff.mp indexed
      rw [ih rest, indexChildren_svIdx entered, List.map_cons, List.sum_cons]
      omega

theorem reached_sum_le (doc : List ScalarVariable) (isBinary : Bool) :
    (doc.map fun node => (reachedChildren isBinary node.children).length).sum ≤
      fmuVariableCount doc isBinary := by
  induction doc with
  | nil => simp [fmuVariableCount]
  | cons node doc ih =>
      have here := reachedChildren_le isBinary node.children
      simp only [fmuVariableCount, List.map_cons, List.sum_cons] at ih ⊢
      omega

/-- The scan reaches as many elements as are counted exactly when it does so in each variable. -/
theorem reached_sum_eq_iff (doc : List ScalarVariable) (isBinary : Bool) :
    (doc.map fun node => (reachedChildren isBinary node.children).length).sum =
        fmuVariableCount doc isBinary ↔
      ∀ node ∈ doc, SupportedFirst isBinary node.children := by
  induction doc with
  | nil => simp [fmuVariableCount]
  | cons node doc ih =>
      have here := reachedChildren_le isBinary node.children
      have rest : (doc.map fun node => (reachedChildren isBinary node.children).length).sum ≤
          fmuVariableCount doc isBinary := reached_sum_le doc isBinary
      have counted : fmuVariableCount (node :: doc) isBinary =
          countChildren isBinary node.children + fmuVariableCount doc isBinary := by
        simp [fmuVariableCount]
      simp only [List.map_cons, List.sum_cons, counted, List.forall_mem_cons]
      rw [← ih, ← reachedChildren_eq_iff]
      omega

end Scan

structure HoldsSlot (isBinary : Bool) (pos vi : Nat) (node : ScalarVariable) (output : Bool)
    (s : IndexState) : Prop where
  found : (s.fmu.variableMap isBinary output).lookup node.valueReference = some ⟨pos, vi⟩
  below : vi < s.svIdx
  named : s.sv.signal[vi]? = some (some node.name)

/-- A variable behind others is reached by its reference in one of the slots that are counted for
it. -/
def Reachable (isBinary : Bool) (pos : Nat) (front : List ScalarVariable) (node : ScalarVariable)
    (output : Bool) (t : IndexState) : Prop :=
  ∃ vi, HoldsSlot isBinary pos vi node output t ∧ fmuVariableCount front isBinary ≤ vi ∧
    vi < fmuVariableCount front isBinary + countChildren isBinary node.children

structure IndexesCounted (doc : List ScalarVariable) (isBinary : Bool) (pos : Nat)
    (t : IndexState) : Prop where
  filled : filledSlots t.sv = fmuVariableCount doc isBinary
  reachable : ∀ front node back, doc = front ++ node :: back →
    0 < countChildren isBinary node.children →
      ∀ output, node.causality = some (causalityText output) →
        Reachable isBinary pos front node output t

/-- The pass fills the vector it allocates, and its assertion on the count holds. -/
def PassAgrees (codecs : Codecs) (doc : List ScalarVariable) (isBinary : Bool)
    (fmu : FmuInstanceData) (pos : Nat) : Prop :=
  ∀ sv, allocateSv doc isBinary = some sv →
    ∃ t, fmuVariableIndex codecs isBinary pos doc ⟨fmu, sv, 0⟩ = some t ∧
      IndexesCounted doc isBinary pos t

/-- Two counted variables of one direction have different references. -/
def Separate (isBinary : Bool) (node other : ScalarVariable) : Prop :=
  0 < countChildren isBinary node.children → 0 < countChildren isBinary other.children →
    ∀ output, node.causality = some (causalityText output) →
      other.causality = some (causalityText output) → node.valueReference ≠ other.valueReference

instance (isBinary : Bool) (node other : ScalarVariable) :
    Decidable (Separate isBinary node other) :=
  inferInstanceAs (Decidable (_ → _ → ∀ _, _))

section Agreement

variable {codecs : Codecs} {doc : List ScalarVariable} {isBinary : Bool} {pos vi : Nat}
  {node other : ScalarVariable} {output : Bool} {s t : IndexState}

theorem HoldsSlot.enter (slots : SlotsFilled s)
    (causality : node.causality = some (causalityText output))
    (step : VariableStep isBinary pos node s t) :
    HoldsSlot isBinary pos s.svIdx node output t := by
  obtain ⟨names, length, signal⟩ := slots
  have room := step.room
  refine ⟨?_, ?_, ?_⟩
  · rw [step.map, if_pos causality]
    exact AList.lookup_insert _
  · rw [step.svIdx]
    exact Nat.lt_succ_self _
  · rw [step.signal, signal, List.getElem?_set_self]
    simp [length]
    omega

theorem HoldsSlot.step (holds : HoldsSlot isBinary pos vi node output s)
    (different : other.causality = some (causalityText output) →
      node.valueReference ≠ other.valueReference)
    (step : VariableStep isBinary pos other s t) :
    HoldsSlot isBinary pos vi node output t := by
  refine ⟨?_, ?_, ?_⟩
  · rw [step.map]
    split
    next also => rw [AList.lookup_insert_ne (different also), holds.found]
    next => exact holds.found
  · rw [step.svIdx]
    exact Nat.lt_succ_of_lt holds.below
  · rw [step.signal_kept holds.below, holds.named]

/-- A scan that reaches no element changes nothing. -/
theorem indexChildren_unreached {children : List XmlChild}
    (unreached : reachedChildren isBinary children = [])
    (indexed : indexChildren codecs isBinary pos node s children = some t) : s = t := by
  induction children with
  | nil => exact Option.some.inj indexed
  | cons child children ih =>
      cases child with
      | other => exact ih unreached indexed
      | element name tools =>
          by_cases supported : supportedVar isBinary name = true
          · rw [reachedChildren_of_pos supported] at unreached
            cases unreached
          · rw [indexChildren, if_neg supported] at indexed
            exact Option.some.inj indexed

theorem fmuVariableIndex_preserves_reached {P : IndexState → Prop}
    (step : ∀ node ∈ doc, reachedChildren isBinary node.children ≠ [] → ∀ s t, P s →
      indexVariable codecs isBinary pos node s = some t → P t) (before : P s)
    (indexed : fmuVariableIndex codecs isBinary pos doc s = some t) : P t := by
  apply fmuVariableIndex_scans _ before indexed
  intro node member s t before scanned
  by_cases reached : reachedChildren isBinary node.children = []
  · exact indexChildren_unreached reached scanned ▸ before
  · exact indexChildren_preserves (step node member reached) before scanned

/-- A variable with a reached element ends in a slot of its own. -/
theorem indexChildren_holds (causality : node.causality = some (causalityText output))
    {children : List XmlChild} (slots : SlotsFilled s)
    (reached : reachedChildren isBinary children ≠ [])
    (indexed : indexChildren codecs isBinary pos node s children = some t) :
    ∃ vi, s.svIdx ≤ vi ∧ HoldsSlot isBinary pos vi node output t := by
  induction children generalizing s with
  | nil => exact absurd rfl reached
  | cons child children ih =>
      cases child with
      | other => exact ih slots reached indexed
      | element name tools =>
          by_cases supported : supportedVar isBinary name = true
          · rw [indexChildren, if_pos supported] at indexed
            obtain ⟨u, entered, rest⟩ := Option.bind_eq_some_iff.mp indexed
            have step := indexVariable_step entered
            by_cases more : reachedChildren isBinary children = []
            · obtain rfl := indexChildren_unreached more rest
              exact ⟨s.svIdx, Nat.le_refl _, .enter slots causality step⟩
            · obtain ⟨vi, from_u, holds⟩ := ih (slots.step step) more rest
              refine ⟨vi, ?_, holds⟩
              rw [step.svIdx] at from_u
              exact Nat.le_of_succ_le from_u
          · exact absurd (reachedChildren_of_neg supported) reached

theorem allocateSv_some {sv : FmuSignalVector} (allocated : allocateSv doc isBinary = some sv)
    (fmu : FmuInstanceData) :
    sv.count = fmuVariableCount doc isBinary ∧ SlotsFilled ⟨fmu, sv, 0⟩ := by
  unfold allocateSv at allocated
  dsimp only at allocated
  split at allocated
  next => cases allocated
  next =>
    obtain rfl := Option.some.inj allocated
    exact ⟨rfl, [], rfl, rfl⟩

theorem fmuVariableIndex_slots {sv : FmuSignalVector} {fmu : FmuInstanceData}
    (allocated : allocateSv doc isBinary = some sv)
    (indexed : fmuVariableIndex codecs isBinary pos doc ⟨fmu, sv, 0⟩ = some t) :
    SlotsFilled t :=
  fmuVariableIndex_preserves (fun _ _ _ _ slots step => slots.step (indexVariable_step step))
    (allocateSv_some allocated fmu).2 indexed

/-- All slots are filled exactly when supported elements come first. -/
theorem filledSlots_eq_iff {sv : FmuSignalVector} {fmu : FmuInstanceData}
    (allocated : allocateSv doc isBinary = some sv)
    (indexed : fmuVariableIndex codecs isBinary pos doc ⟨fmu, sv, 0⟩ = some t) :
    filledSlots t.sv = fmuVariableCount doc isBinary ↔
      ∀ node ∈ doc, SupportedFirst isBinary node.children := by
  have slots := fmuVariableIndex_slots allocated indexed
  rw [slots.filledSlots, fmuVariableIndex_svIdx indexed, Nat.zero_add]
  exact reached_sum_eq_iff doc isBinary

theorem fmuVariableIndex_reachable {sv : FmuSignalVector} {fmu : FmuInstanceData}
    {front back : List ScalarVariable}
    (allocated : allocateSv (front ++ node :: back) isBinary = some sv)
    (indexed : fmuVariableIndex codecs isBinary pos (front ++ node :: back) ⟨fmu, sv, 0⟩ = some t)
    (first : ∀ other ∈ front ++ node :: back, SupportedFirst isBinary other.children)
    (separate : (front ++ node :: back).Pairwise (Separate isBinary))
    (counted : 0 < countChildren isBinary node.children)
    (causality : node.causality = some (causalityText output)) :
    Reachable isBinary pos front node output t := by
  have start := (allocateSv_some allocated fmu).2
  rw [fmuVariableIndex, List.foldlM_append] at indexed
  obtain ⟨u, scanned, indexed⟩ := Option.bind_eq_some_iff.mp indexed
  rw [List.foldlM_cons] at indexed
  obtain ⟨v, entered, rest⟩ := Option.bind_eq_some_iff.mp indexed
  have before : fmuVariableIndex codecs isBinary pos front ⟨fmu, sv, 0⟩ = some u := scanned
  have behind_ : fmuVariableIndex codecs isBinary pos back v = some t := rest
  rw [List.forall_mem_append, List.forall_mem_cons] at first
  have index : u.svIdx = fmuVariableCount front isBinary := by
    rw [fmuVariableIndex_svIdx before, (reached_sum_eq_iff front isBinary).mpr first.1]
    exact Nat.zero_add _
  have reached := reachedChildren_eq_iff.mpr first.2.1
  have slots : SlotsFilled u := fmuVariableIndex_preserves
    (fun _ _ _ _ slots step => slots.step (indexVariable_step step)) start before
  obtain ⟨vi, lower, holds⟩ := indexChildren_holds causality slots
    (List.length_pos_iff.mp (reached ▸ counted)) entered
  refine ⟨vi, ?_, index ▸ lower, ?_⟩
  · -- the variables behind are not reached, of the other direction, or have another reference
    have behind := (List.pairwise_cons.mp (List.pairwise_append.mp separate).2.1).1
    apply fmuVariableIndex_preserves_reached _ holds behind_
    intro other later other_reached x y before entered
    apply before.step _ (indexVariable_step entered)
    have other_counted := (List.length_pos_iff.mpr other_reached).trans_le
      (reachedChildren_le isBinary other.children)
    exact behind other later counted other_counted output causality
  · have below := holds.below
    rwa [indexChildren_svIdx entered, reached, index] at below

/-- Two variables that are reached in slots of their own have different references. -/
theorem Reachable.ne {front middle : List ScalarVariable}
    (first : Reachable isBinary pos front node output t)
    (second : Reachable isBinary pos (front ++ node :: middle) other output t) :
    node.valueReference ≠ other.valueReference := by
  obtain ⟨vi, holds, _, below⟩ := first
  obtain ⟨wi, later, above, _⟩ := second
  intro same
  have found := later.found
  rw [← same, holds.found, Option.some.injEq, FmuSignalVectorIndex.mk.injEq] at found
  simp only [fmuVariableCount, List.map_append, List.map_cons, List.sum_append,
    List.sum_cons] at above below
  omega

theorem IndexesCounted.separate (counted : IndexesCounted doc isBinary pos t) :
    doc.Pairwise (Separate isBinary) := by
  apply List.pairwise_iff_forall_sublist.mpr
  intro node other pair first second output causality also
  obtain ⟨before, rest, rfl, here, later⟩ := List.cons_sublist_iff.mp pair
  obtain ⟨front, middle, rfl⟩ := List.append_of_mem here
  obtain ⟨between, back, rfl⟩ := List.append_of_mem (List.singleton_sublist.mp later)
  have one := counted.reachable front node (middle ++ (between ++ other :: back)) (by simp) first
    output causality
  have two := counted.reachable (front ++ node :: (middle ++ between)) other back (by simp) second
    output also
  exact one.ne two

theorem separate_of_count_zero (none_counted : fmuVariableCount doc isBinary = 0) :
    doc.Pairwise (Separate isBinary) := by
  apply List.pairwise_of_forall_mem_list
  intro node member _ _ counted
  have here := List.sum_eq_zero_iff_forall_eq_nat.mp none_counted _ (List.mem_map_of_mem member)
  exact absurd here (Nat.ne_of_gt counted)

theorem supported_of_count_zero (none_counted : fmuVariableCount doc isBinary = 0) :
    ∀ node ∈ doc, SupportedFirst isBinary node.children := by
  intro node member
  have here := List.sum_eq_zero_iff_forall_eq_nat.mp none_counted _ (List.mem_map_of_mem member)
  have reached := reachedChildren_le isBinary node.children
  exact reachedChildren_eq_iff.mp (by omega)

end Agreement

/-- A pass indexes what it counts exactly when, in every variable, no supported element
follows one that is not supported, and counted variables of one direction have different
references. -/
theorem passAgrees_iff (codecs : Codecs) (doc : List ScalarVariable) (isBinary : Bool)
    (fmu : FmuInstanceData) (pos : Nat) :
    PassAgrees codecs doc isBinary fmu pos ↔
      (∀ node ∈ doc, SupportedFirst isBinary node.children) ∧
        doc.Pairwise (Separate isBinary) := by
  constructor
  · intro agrees
    cases allocated : allocateSv doc isBinary with
    | none =>
        have none_counted : fmuVariableCount doc isBinary = 0 := by
          by_contra counted
          simp [allocateSv, counted] at allocated
        exact ⟨supported_of_count_zero none_counted, separate_of_count_zero none_counted⟩
    | some sv =>
        obtain ⟨t, indexed, counted⟩ := agrees sv allocated
        exact ⟨(filledSlots_eq_iff allocated indexed).mp counted.filled, counted.separate⟩
  · rintro ⟨first, separate⟩ sv allocated
    have count := (allocateSv_some allocated fmu).1
    obtain ⟨t, indexed, _⟩ := @fmuVariableIndex_some codecs isBinary pos doc ⟨fmu, sv, 0⟩
      (by simp [count])
    refine ⟨t, indexed, (filledSlots_eq_iff allocated indexed).mpr first, ?_⟩
    rintro front node back rfl counted output causality
    exact fmuVariableIndex_reachable allocated indexed first separate counted causality

/-- An input whose annotations stand before its type is counted, but not indexed. -/
theorem passAgrees_annotationsFirst :
    ¬ PassAgrees (fun _ => false)
      [⟨"x", "1", some "input", [.element "Annotations" [], .element "Real" []]⟩]
      false .null 0 := by
  rw [passAgrees_iff]
  decide

end DseFmi.Fmu
