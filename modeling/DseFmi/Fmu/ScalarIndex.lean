import DseFmi.Fmu.Variable

/-!
# The index of the scalar variables

The scan never runs out of the counted entries. Every scalar variable with a causality
of input or output is found under its reference, and different references lead to
different entries of the vector.
-/

namespace DseFmi.Fmu

section Scan

variable {codecs : Codecs} {isBinary : Bool} {pos : Nat}

theorem indexVariable_some (codecs : Codecs) (isBinary : Bool) (pos : Nat) (node : ScalarVariable)
    {s : IndexState} (room : s.svIdx < s.sv.count) :
    ∃ t, indexVariable codecs isBinary pos node s = some t ∧ t.svIdx = s.svIdx + 1 ∧
      t.sv.count = s.sv.count := by
  unfold indexVariable
  rw [if_pos room]
  cases isBinary <;> exact ⟨_, rfl, rfl, rfl⟩

theorem indexChildren_some (codecs : Codecs) (isBinary : Bool) (pos : Nat) (node : ScalarVariable)
    {children : List XmlChild} {s : IndexState}
    (room : s.svIdx + countChildren isBinary children ≤ s.sv.count) :
    ∃ t, indexChildren codecs isBinary pos node s children = some t ∧
      t.svIdx ≤ s.svIdx + countChildren isBinary children ∧ t.sv.count = s.sv.count := by
  induction children generalizing s with
  | nil => exact ⟨s, rfl, Nat.le_refl _, rfl⟩
  | cons child children ih =>
      cases child with
      | other => exact ih (s := s) room
      | element name tools =>
          by_cases supported : supportedVar isBinary name = true
          · have counted : countChildren isBinary (.element name tools :: children) =
                countChildren isBinary children + 1 := by simp [countChildren, supported]
            rw [counted] at room ⊢
            obtain ⟨t, indexed, next, count⟩ :=
              indexVariable_some codecs isBinary pos node (s := s) (by omega)
            obtain ⟨u, rest, bound, same⟩ := ih (s := t) (by omega)
            refine ⟨u, ?_, by omega, same.trans count⟩
            rw [indexChildren, if_pos supported, indexed]
            exact rest
          · refine ⟨s, ?_, Nat.le_add_right _ _, rfl⟩
            rw [indexChildren, if_neg supported]

theorem fmuVariableIndex_some (codecs : Codecs) (isBinary : Bool) (pos : Nat)
    {doc : List ScalarVariable} {s : IndexState}
    (room : s.svIdx + fmuVariableCount doc isBinary ≤ s.sv.count) :
    ∃ t, fmuVariableIndex codecs isBinary pos doc s = some t ∧
      t.svIdx ≤ s.svIdx + fmuVariableCount doc isBinary := by
  induction doc generalizing s with
  | nil => exact ⟨s, rfl, Nat.le_refl _⟩
  | cons node doc ih =>
      have counted : fmuVariableCount (node :: doc) isBinary =
          countChildren isBinary node.children + fmuVariableCount doc isBinary := by
        simp [fmuVariableCount]
      rw [counted] at room ⊢
      obtain ⟨t, indexed, bound, count⟩ :=
        @indexChildren_some codecs isBinary pos node node.children s (by omega)
      obtain ⟨u, rest, total⟩ := ih (s := t) (by omega)
      refine ⟨u, ?_, by omega⟩
      rw [fmuVariableIndex, List.foldlM_cons, indexed]
      exact rest

theorem indexChildren_preserves {node : ScalarVariable} {P : IndexState → Prop}
    (step : ∀ s t, P s → indexVariable codecs isBinary pos node s = some t → P t)
    {children : List XmlChild} {s t : IndexState} (before : P s)
    (indexed : indexChildren codecs isBinary pos node s children = some t) : P t := by
  induction children generalizing s with
  | nil => exact Option.some.inj indexed ▸ before
  | cons child children ih =>
      cases child with
      | other => exact ih before indexed
      | element name tools =>
          rw [indexChildren] at indexed
          split at indexed
          · obtain ⟨u, first, rest⟩ := Option.bind_eq_some_iff.mp indexed
            exact ih (step s u before first) rest
          · exact Option.some.inj indexed ▸ before

theorem fmuVariableIndex_scans {doc : List ScalarVariable} {P : IndexState → Prop}
    (scan : ∀ node ∈ doc, ∀ s t, P s →
      indexChildren codecs isBinary pos node s node.children = some t → P t)
    {s t : IndexState} (before : P s)
    (indexed : fmuVariableIndex codecs isBinary pos doc s = some t) : P t := by
  induction doc generalizing s with
  | nil => exact Option.some.inj indexed ▸ before
  | cons node doc ih =>
      rw [fmuVariableIndex, List.foldlM_cons] at indexed
      obtain ⟨u, first, rest⟩ := Option.bind_eq_some_iff.mp indexed
      refine ih (fun other member => scan other (List.mem_cons_of_mem _ member)) ?_ rest
      exact scan node List.mem_cons_self s u before first

theorem fmuVariableIndex_preserves {doc : List ScalarVariable} {P : IndexState → Prop}
    (step : ∀ node ∈ doc, ∀ s t, P s → indexVariable codecs isBinary pos node s = some t → P t)
    {s t : IndexState} (before : P s)
    (indexed : fmuVariableIndex codecs isBinary pos doc s = some t) : P t := by
  apply fmuVariableIndex_scans _ before indexed
  intro node member s t before scanned
  exact indexChildren_preserves (step node member) before scanned

def firstElement : List XmlChild → Option String
  | [] => none
  | .other :: children => firstElement children
  | .element name _ :: _ => some name

/-- A variable with a supported first element is indexed in a state that satisfies the
invariant, and the rest preserves what that establishes. -/
theorem fmuVariableIndex_establishes {doc : List ScalarVariable} {node : ScalarVariable}
    {I P : IndexState → Prop} {name : String} (member : node ∈ doc)
    (first : firstElement node.children = some name) (supported : supportedVar isBinary name = true)
    (keeps : ∀ other ∈ doc, ∀ s t, I s →
      indexVariable codecs isBinary pos other s = some t → I t)
    (establish : ∀ s t, I s → indexVariable codecs isBinary pos node s = some t → P t)
    (step : ∀ other ∈ doc, ∀ s t, I s → P s →
      indexVariable codecs isBinary pos other s = some t → P t)
    {s t : IndexState} (start : I s)
    (indexed : fmuVariableIndex codecs isBinary pos doc s = some t) : P t := by
  have both : ∀ other ∈ doc, ∀ s t, I s ∧ P s →
      indexVariable codecs isBinary pos other s = some t → I t ∧ P t :=
    fun other member s t before entered =>
      ⟨keeps other member s t before.1 entered,
        step other member s t before.1 before.2 entered⟩
  have children : ∀ (children : List XmlChild) (s t : IndexState),
      firstElement children = some name → I s →
      indexChildren codecs isBinary pos node s children = some t → I t ∧ P t := by
    intro children
    induction children with
    | nil => exact fun _ _ first _ => nomatch first
    | cons child children ih =>
        intro s t first start indexed
        cases child with
        | other => exact ih s t first start indexed
        | element other tools =>
            obtain rfl : other = name := Option.some.inj first
            rw [indexChildren, if_pos supported] at indexed
            obtain ⟨u, entered, rest⟩ := Option.bind_eq_some_iff.mp indexed
            exact indexChildren_preserves (both node member)
              ⟨keeps node member s u start entered, establish s u start entered⟩ rest
  obtain ⟨before, after, rfl⟩ := List.append_of_mem member
  rw [fmuVariableIndex, List.foldlM_append] at indexed
  obtain ⟨u, scanned, indexed⟩ := Option.bind_eq_some_iff.mp indexed
  rw [List.foldlM_cons] at indexed
  obtain ⟨v, entered, rest⟩ := Option.bind_eq_some_iff.mp indexed
  have before_node : fmuVariableIndex codecs isBinary pos before s = some u := scanned
  have after_node : fmuVariableIndex codecs isBinary pos after v = some t := rest
  have reached : I u := fmuVariableIndex_preserves
    (fun other earlier => keeps other (List.mem_append_left _ earlier)) start before_node
  refine (fmuVariableIndex_preserves (P := fun u => I u ∧ P u) ?_
    (children _ u v first reached entered) after_node).2
  exact fun other later => both other (List.mem_append_right _ (List.mem_cons_of_mem _ later))

end Scan

/-- The key leads to the entry, in the map of the outputs or of the inputs. -/
def Points (fmu : FmuInstanceData) (k : String) (p : FmuSignalVectorIndex) : Prop :=
  fmu.scalarOutput.lookup k = some p ∨ fmu.scalarInput.lookup k = some p

/-- The maps hold references of the document, each with an entry of its own. -/
structure ScalarKeys (doc : List ScalarVariable) (fmu : FmuInstanceData) : Prop where
  injective : ∀ k l p, Points fmu k p → Points fmu l p → k = l
  output : ∀ k p, fmu.scalarOutput.lookup k = some p →
    ∃ node ∈ doc, node.valueReference = k ∧ node.causality = some "output"
  input : ∀ k p, fmu.scalarInput.lookup k = some p →
    ∃ node ∈ doc, node.valueReference = k ∧ node.causality = some "input"

structure ScalarPass (pos : Nat) (doc : List ScalarVariable) (s : IndexState) : Prop where
  keys : ScalarKeys doc s.fmu
  used : ∀ k p, Points s.fmu k p → p.sv = pos ∧ p.vi < s.svIdx
  bound : s.svIdx ≤ s.sv.count
  storage : s.sv.scalar = some (List.replicate s.sv.count 0)

theorem lookup_insert_cases {α : Type} {map : HashMap α} {k l : String} {v w : α}
    (found : (map.insert k v).lookup l = some w) : (l = k ∧ w = v) ∨ map.lookup l = some w := by
  by_cases same : l = k
  · subst same
    rw [AList.lookup_insert] at found
    exact .inl ⟨rfl, (Option.some.inj found).symm⟩
  · rw [AList.lookup_insert_ne same] at found
    exact .inr found

theorem lookup_insert_isSome {α : Type} {map : HashMap α} {k l : String} {v : α}
    (present : ∃ w, map.lookup l = some w) : ∃ w, (map.insert k v).lookup l = some w := by
  by_cases same : l = k
  · subst same
    exact ⟨v, AList.lookup_insert map⟩
  · rwa [AList.lookup_insert_ne same]

section Step

variable {fmu : FmuInstanceData} {p q : FmuSignalVectorIndex} {vr k : String}
  {causality : Option String}

theorem scalarOutput_cases
    (found : (indexScalarVariable fmu p vr causality).scalarOutput.lookup k = some q) :
    (k = vr ∧ q = p ∧ causality = some "output") ∨ fmu.scalarOutput.lookup k = some q := by
  unfold indexScalarVariable at found
  split at found
  next output => exact (lookup_insert_cases found).imp_left fun h => ⟨h.1, h.2, output⟩
  next => split at found <;> exact .inr found

theorem scalarInput_cases
    (found : (indexScalarVariable fmu p vr causality).scalarInput.lookup k = some q) :
    (k = vr ∧ q = p ∧ causality = some "input") ∨ fmu.scalarInput.lookup k = some q := by
  unfold indexScalarVariable at found
  split at found
  next => exact .inr found
  next =>
    split at found
    next input => exact (lookup_insert_cases found).imp_left fun h => ⟨h.1, h.2, input⟩
    next => exact .inr found

theorem Points.cases (points : Points (indexScalarVariable fmu p vr causality) k q) :
    (k = vr ∧ q = p) ∨ Points fmu k q := by
  rcases points with found | found
  · exact (scalarOutput_cases found).imp (fun h => ⟨h.1, h.2.1⟩) .inl
  · exact (scalarInput_cases found).imp (fun h => ⟨h.1, h.2.1⟩) .inr

theorem scalarInput_isSome (present : ∃ q, fmu.scalarInput.lookup k = some q) :
    ∃ q, (indexScalarVariable fmu p vr causality).scalarInput.lookup k = some q := by
  unfold indexScalarVariable
  split
  · exact present
  · split
    · exact lookup_insert_isSome present
    · exact present

end Step

structure ScalarStep (pos : Nat) (node : ScalarVariable) (s t : IndexState) : Prop where
  room : s.svIdx < s.sv.count
  fmu : t.fmu =
    indexScalarVariable s.fmu ⟨pos, s.svIdx⟩ node.valueReference node.causality
  svIdx : t.svIdx = s.svIdx + 1
  count : t.sv.count = s.sv.count
  scalar : t.sv.scalar = s.sv.scalar

theorem indexVariable_scalar {codecs : Codecs} {pos : Nat} {node : ScalarVariable}
    {s t : IndexState} (indexed : indexVariable codecs false pos node s = some t) :
    ScalarStep pos node s t := by
  unfold indexVariable at indexed
  split at indexed
  next room => exact Option.some.inj indexed ▸ ⟨room, rfl, rfl, rfl, rfl⟩
  next => cases indexed

theorem ScalarPass.step {pos : Nat} {doc : List ScalarVariable} {node : ScalarVariable}
    {s t : IndexState} (h : ScalarPass pos doc s) (member : node ∈ doc)
    (step : ScalarStep pos node s t) : ScalarPass pos doc t := by
  have unused : ∀ k, ¬ Points s.fmu k ⟨pos, s.svIdx⟩ := fun k points =>
    Nat.lt_irrefl _ (h.used k _ points).2
  refine ⟨⟨?_, ?_, ?_⟩, ?_, ?_, ?_⟩
  · intro k l p hk hl
    rw [step.fmu] at hk hl
    rcases hk.cases with ⟨rfl, rfl⟩ | hk <;> rcases hl.cases with ⟨rfl, new⟩ | hl
    · rfl
    · exact absurd hl (unused l)
    · exact absurd (new ▸ hk) (unused k)
    · exact h.keys.injective k l p hk hl
  · intro k p found
    rw [step.fmu] at found
    rcases scalarOutput_cases found with ⟨rfl, _, output⟩ | found
    · exact ⟨node, member, rfl, output⟩
    · exact h.keys.output k p found
  · intro k p found
    rw [step.fmu] at found
    rcases scalarInput_cases found with ⟨rfl, _, input⟩ | found
    · exact ⟨node, member, rfl, input⟩
    · exact h.keys.input k p found
  · intro k p points
    rw [step.fmu] at points
    rw [step.svIdx]
    rcases points.cases with ⟨_, rfl⟩ | points
    · exact ⟨rfl, Nat.lt_succ_self _⟩
    · exact ⟨(h.used k p points).1, Nat.lt_succ_of_lt (h.used k p points).2⟩
  · rw [step.svIdx, step.count]
    exact step.room
  · rw [step.scalar, step.count, h.storage]

/-- The maps of the scalars after the setup, with valid pointers for all keys. -/
structure ScalarsIndexed (doc : List ScalarVariable) (fmu : FmuInstanceData) : Prop where
  keys : ScalarKeys doc fmu
  valid : ∀ k p, Points fmu k p → fmu.getScalar p ≠ none
  input : ∀ node ∈ doc, ∀ name, firstElement node.children = some name → isScalarVar name = true →
    node.causality = some "input" → ∃ p, fmu.scalarInput.lookup node.valueReference = some p

structure NoScalars (fmu : FmuInstanceData) : Prop where
  output : fmu.scalarOutput = ∅
  input : fmu.scalarInput = ∅

theorem NoScalars.not_points {fmu : FmuInstanceData} (h : NoScalars fmu) {k : String}
    {p : FmuSignalVectorIndex} : ¬ Points fmu k p := by
  rintro (found | found)
  · rw [h.output, AList.lookup_empty] at found
    cases found
  · rw [h.input, AList.lookup_empty] at found
    cases found

/-- The parts of an instance that accesses to scalars depend on, storage apart. -/
structure SameScalarMaps (fmu gmu : FmuInstanceData) : Prop where
  output : gmu.scalarOutput = fmu.scalarOutput
  input : gmu.scalarInput = fmu.scalarInput
  directIndex : gmu.directIndex = fmu.directIndex

theorem SameScalarMaps.trans {fmu gmu hmu : FmuInstanceData} (first : SameScalarMaps fmu gmu)
    (second : SameScalarMaps gmu hmu) : SameScalarMaps fmu hmu :=
  ⟨second.output.trans first.output, second.input.trans first.input,
    second.directIndex.trans first.directIndex⟩

theorem SameScalarMaps.points_iff {fmu gmu : FmuInstanceData} (h : SameScalarMaps fmu gmu)
    {k : String} {p : FmuSignalVectorIndex} : Points gmu k p ↔ Points fmu k p := by
  rw [Points, Points, h.output, h.input]

theorem indexBinary_same (fmu : FmuInstanceData) (p : FmuSignalVectorIndex) (vr : String)
    (causality encoding : Option String) :
    SameScalarMaps fmu (indexBinaryFuncs (indexBinarySignal fmu p vr causality) vr encoding) := by
  unfold indexBinaryFuncs indexBinarySignal
  split <;> split <;> first | exact ⟨rfl, rfl, rfl⟩ | (split <;> exact ⟨rfl, rfl, rfl⟩)

theorem fmuVariableIndex_binary {codecs : Codecs} {pos : Nat} {doc : List ScalarVariable}
    {s t : IndexState} (indexed : fmuVariableIndex codecs true pos doc s = some t) :
    SameScalarMaps s.fmu t.fmu := by
  refine fmuVariableIndex_preserves (P := fun u => SameScalarMaps s.fmu u.fmu) ?_
    ⟨rfl, rfl, rfl⟩ indexed
  intro node _ u v same step
  unfold indexVariable at step
  split at step
  · exact same.trans (Option.some.inj step ▸ indexBinary_same ..)
  · cases step

theorem fmuVariableIndex_input {codecs : Codecs} {pos : Nat} {doc : List ScalarVariable}
    {node : ScalarVariable} {name : String} {s t : IndexState} (member : node ∈ doc)
    (first : firstElement node.children = some name) (scalar : isScalarVar name = true)
    (input : node.causality = some "input")
    (indexed : fmuVariableIndex codecs false pos doc s = some t) :
    ∃ p, t.fmu.scalarInput.lookup node.valueReference = some p := by
  have supported : supportedVar false name = true := scalar
  refine fmuVariableIndex_establishes (I := fun _ => True)
    (P := fun u => ∃ p, u.fmu.scalarInput.lookup node.valueReference = some p)
    member first supported (fun _ _ _ _ _ _ => trivial) ?_ ?_ trivial indexed
  · intro u v _ step
    rw [(indexVariable_scalar step).fmu, indexScalarVariable, input]
    exact ⟨_, AList.lookup_insert _⟩
  · intro other _ u v _ present step
    rw [(indexVariable_scalar step).fmu]
    exact scalarInput_isSome present

theorem countChildren_pos {isBinary : Bool} {children : List XmlChild} {name : String}
    (first : firstElement children = some name) (supported : supportedVar isBinary name = true) :
    0 < countChildren isBinary children := by
  induction children with
  | nil => cases first
  | cons child children ih =>
      cases child with
      | other => exact ih first
      | element other tools =>
          obtain rfl : other = name := Option.some.inj first
          simp [countChildren, supported]

/-- The value an index leads to in a list of vectors. -/
def scalarAt (svs : List FmuSignalVector) (p : FmuSignalVectorIndex) : Option Double :=
  svs[p.sv]?.bind fun sv => sv.getScalar p.vi

structure ScalarSetup (doc : List ScalarVariable) (fmu gmu : FmuInstanceData)
    (svs : List FmuSignalVector) : Prop where
  keys : ScalarKeys doc gmu
  valid : ∀ k p, Points gmu k p → ∀ rest, scalarAt (svs ++ rest) p ≠ none
  input : ∀ node ∈ doc, ∀ name, firstElement node.children = some name → isScalarVar name = true →
    node.causality = some "input" → ∃ p, gmu.scalarInput.lookup node.valueReference = some p
  directIndex : gmu.directIndex = fmu.directIndex

theorem ScalarKeys.of_noScalars {doc : List ScalarVariable} {fmu : FmuInstanceData}
    (h : NoScalars fmu) : ScalarKeys doc fmu where
  injective _ _ _ points := absurd points h.not_points
  output _ p found := absurd (.inl found) (h.not_points (p := p))
  input _ p found := absurd (.inr found) (h.not_points (p := p))

theorem ScalarPass.valid {doc : List ScalarVariable} {t : IndexState} (h : ScalarPass 0 doc t)
    {k : String} {p : FmuSignalVectorIndex} (points : Points t.fmu k p)
    (rest : List FmuSignalVector) : scalarAt ([t.sv] ++ rest) p ≠ none := by
  obtain ⟨first, used⟩ := h.used k p points
  have inside : p.vi < t.sv.count := Nat.lt_of_lt_of_le used h.bound
  simp [scalarAt, first, FmuSignalVector.getScalar, h.storage, inside]

theorem fmuVariableIndex_directIndex {codecs : Codecs} {pos : Nat} {doc : List ScalarVariable}
    {s t : IndexState} (indexed : fmuVariableIndex codecs false pos doc s = some t) :
    t.fmu.directIndex = s.fmu.directIndex := by
  refine fmuVariableIndex_preserves (P := fun u => u.fmu.directIndex = s.fmu.directIndex) ?_
    rfl indexed
  intro node _ u v same step
  rw [(indexVariable_scalar step).fmu, ← same, indexScalarVariable]
  split
  · rfl
  · split <;> rfl

theorem setupSv_scalar (codecs : Codecs) (doc : List ScalarVariable) {fmu : FmuInstanceData}
    (none_yet : NoScalars fmu) :
    ∃ gmu svs, setupSv codecs doc false (fmu, []) = some (gmu, svs) ∧
      ScalarSetup doc fmu gmu svs := by
  unfold setupSv allocateSv
  by_cases empty : fmuVariableCount doc false = 0
  · refine ⟨fmu, [], by simp [empty], .of_noScalars none_yet, ?_, ?_, rfl⟩
    · exact fun k p points => absurd points none_yet.not_points
    · intro node member name first scalar _
      have counted := List.sum_eq_zero_iff_forall_eq_nat.mp empty _ (List.mem_map_of_mem member)
      have supported : supportedVar false name = true := scalar
      have positive := countChildren_pos first supported
      omega
  · simp only [if_neg empty, Bool.false_eq_true, if_false, List.length_nil, List.nil_append]
    generalize hsv : FmuSignalVector.mk (fmuVariableCount doc false) _ _ _ = sv
    obtain ⟨t, indexed, _⟩ := @fmuVariableIndex_some codecs false 0 doc ⟨fmu, sv, 0⟩
      (by simp [← hsv])
    have start : ScalarPass 0 doc ⟨fmu, sv, 0⟩ :=
      ⟨.of_noScalars none_yet, fun k p points => absurd points none_yet.not_points,
        Nat.zero_le _, by simp [← hsv]⟩
    have pass : ScalarPass 0 doc t := fmuVariableIndex_preserves
      (fun node member u v h step => h.step member (indexVariable_scalar step)) start indexed
    refine ⟨t.fmu, [t.sv], by rw [indexed]; rfl, pass.keys, ?_, ?_, ?_⟩
    · exact fun k p points rest => pass.valid points rest
    · intro node member name first scalar input
      exact fmuVariableIndex_input member first scalar input indexed
    · exact fmuVariableIndex_directIndex indexed

theorem setupSv_binary (codecs : Codecs) (doc : List ScalarVariable) (fmu : FmuInstanceData)
    (svs : List FmuSignalVector) :
    ∃ gmu rest, setupSv codecs doc true (fmu, svs) = some (gmu, svs ++ rest) ∧
      SameScalarMaps fmu gmu := by
  unfold setupSv allocateSv
  by_cases empty : fmuVariableCount doc true = 0
  · exact ⟨fmu, [], by simp [empty], rfl, rfl, rfl⟩
  · simp only [if_neg empty]
    generalize hsv : FmuSignalVector.mk (fmuVariableCount doc true) _ _ _ = sv
    obtain ⟨t, indexed, _⟩ := @fmuVariableIndex_some codecs true svs.length doc ⟨fmu, sv, 0⟩
      (by simp [← hsv])
    exact ⟨t.fmu, [t.sv], by rw [indexed]; rfl, fmuVariableIndex_binary indexed⟩

theorem fmuDefaultSignalsSetup_scalars (codecs : Codecs) (doc : List ScalarVariable)
    {fmu : FmuInstanceData} (none_yet : NoScalars fmu) :
    ∃ gmu, fmuDefaultSignalsSetup codecs (some doc) fmu = some gmu ∧ ScalarsIndexed doc gmu ∧
      gmu.directIndex = fmu.directIndex := by
  obtain ⟨gmu, svs, scalar, setup⟩ := setupSv_scalar codecs doc none_yet
  obtain ⟨hmu, rest, binary, same⟩ := setupSv_binary codecs doc gmu svs
  refine ⟨{ hmu with data := svs ++ rest }, ?_, ⟨⟨?_, ?_, ?_⟩, ?_, ?_⟩, ?_⟩
  · rw [fmuDefaultSignalsSetup, scalar]
    simp only [Option.bind_eq_bind, Option.bind_some, binary]
  · intro k l p hk hl
    exact setup.keys.injective k l p (same.points_iff.mp hk) (same.points_iff.mp hl)
  · intro k p found
    exact setup.keys.output k p (same.output ▸ found)
  · intro k p found
    exact setup.keys.input k p (same.input ▸ found)
  · intro k p points
    exact setup.valid k p (same.points_iff.mp points) rest
  · intro node member name first scalar input
    rw [same.input]
    exact setup.input node member name first scalar input
  · exact same.directIndex.trans setup.directIndex

end DseFmi.Fmu
