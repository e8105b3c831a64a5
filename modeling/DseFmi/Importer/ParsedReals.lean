import DseFmi.Fmu.RoundTrip
import DseFmi.Importer.ParseXml

/-!
# The reals that the importer parses

The importer lists a real input or output under its reference exactly when the FMU has an entry
for that reference, as long as the references are written as decimal numbers below `2 ^ 31` and
the type of a variable is its first element.
-/

namespace DseFmi.Importer

open DseFmi.Fmu
open DseFmi.Library

theorem leadingDigits_repr (n : Nat) : leadingDigits (Nat.repr n).toList = n := by
  have digits : (Nat.repr n).toList.takeWhile Char.isDigit = (Nat.repr n).toList :=
    List.takeWhile_eq_self_iff.mpr fun c member => isDigit_of_mem_repr member
  have value := @Nat.ofDigitChars_ten_toDigits n
  rw [Nat.ofDigitChars_eq_foldl, ← Nat.toList_repr] at value
  rw [leadingDigits, digits]
  exact value

theorem leadingInt_repr (n : Nat) : leadingInt (Nat.repr n).toList = n := by
  have visible : ∀ c ∈ (Nat.repr n).toList, c ≠ '-' ∧ c ≠ '+' ∧ ¬ isSpace c = true := by
    intro c member
    have digit := isDigit_of_mem_repr member
    refine ⟨?_, ?_, ?_⟩
    · rintro rfl
      exact absurd digit (by decide)
    · rintro rfl
      exact absurd digit (by decide)
    · intro space
      simp only [isSpace, Bool.or_eq_true, decide_eq_true_eq, Bool.and_eq_true] at space
      simp only [Char.isDigit, Bool.and_eq_true, decide_eq_true_eq] at digit
      rcases space with rfl | space
      · exact absurd digit.1 (by decide)
      · exact absurd (UInt32.le_trans digit.1 (Char.le_def.mp space.2)) (by decide)
  have number := leadingDigits_repr n
  cases text : (Nat.repr n).toList with
  | nil =>
      rw [text] at number
      rw [leadingInt, ← number]
      rfl
  | cons c rest =>
      rw [text] at number visible
      obtain ⟨minus, plus, shown⟩ := visible c List.mem_cons_self
      rw [leadingInt, List.dropWhile_cons_of_neg shown]
      unfold signedDigits
      split
      next same => exact absurd (List.cons.inj same).1 minus
      next same => exact absurd (List.cons.inj same).1 plus
      · rw [number]

theorem atoi_repr {n : Nat} (small : n < 2 ^ 31) : atoi (Nat.repr n).toList = UInt32.ofNat n := by
  have bounded : max (-9223372036854775808) (min 9223372036854775807 (n : Int)) = n := by omega
  have same : ((n : Int) % 2 ^ 32).toNat = n := by omega
  rw [atoi, leadingInt_repr, bounded, UInt32.ofInt, same]

theorem toNat_atoi_repr {n : Nat} (small : n < 2 ^ 31) :
    (atoi (Nat.repr n).toList).toNat = n := by
  rw [atoi_repr small]
  exact UInt32.toNat_ofNat_of_lt' (by simpa [UInt32.size] using by omega)

/-- The FMU looks a parsed reference up under the text it was parsed from. -/
theorem vrIdx_atoi_repr {n : Nat} (small : n < 2 ^ 31) :
    vrIdx (atoi (Nat.repr n).toList) = Nat.repr n := by
  rw [vrIdx_of_lt (by rwa [toNat_atoi_repr small]), toNat_atoi_repr small]

def causalityText (input : Bool) : String := if input then "input" else "output"

def VrMaps.reals {D : Type} (maps : VrMaps D) (input : Bool) : HashMap D :=
  if input then maps.vrRxReal else maps.vrTxReal

def VariableChild.isReal : VariableChild → Bool
  | .element "Real" _ _ => true
  | _ => false

structure DeclaresReal (node : VariableNode) (input : Bool) (k : String) : Prop where
  valueReference : node.valueReference = some k
  causality : node.causality = some (causalityText input)
  real : ∃ child ∈ node.children, child.isReal = true

section Parse

variable {D : Type} {atof : String → D} {zero : D} {config : CodecConfig}

theorem mem_reals_setReal (maps : VrMaps D) (vr causality : String) (start : D) (input : Bool)
    (k : String) : k ∈ (setReal vr causality start maps).reals input ↔
      (k = vr ∧ causality = causalityText input) ∨ k ∈ maps.reals input := by
  unfold setReal VrMaps.reals causalityText
  cases input with
  | true =>
      by_cases isInput : causality = "input"
      · simp [isInput, AList.mem_insert]
      · by_cases isOutput : causality = "output" <;> simp [isInput, isOutput]
  | false =>
      by_cases isInput : causality = "input"
      · simp [isInput]
      · by_cases isOutput : causality = "output" <;> simp [isOutput, isInput, AList.mem_insert]

theorem reals_setBinary (maps : VrMaps D) (vr causality : String) (data : ParsedBinary)
    (input : Bool) : (setBinary vr causality data maps).reals input = maps.reals input := by
  unfold setBinary
  split
  · rfl
  · split <;> rfl

theorem mem_reals_parseFmi2Child (node : VariableNode) (vr causality : String) (maps : VrMaps D)
    (child : VariableChild) (input : Bool) (k : String) :
    k ∈ (parseFmi2Child atof zero config node vr causality maps child).reals input ↔
      (k = vr ∧ causality = causalityText input ∧ child.isReal = true) ∨
        k ∈ maps.reals input := by
  cases child with
  | other => simp [parseFmi2Child, VariableChild.isReal]
  | element name start tools =>
      have strings : (parseFmi2Child atof zero config node vr causality maps
          (.element name start tools)).reals input =
          (parseFmi2Scalar atof zero name vr causality start maps).reals input := by
        rw [parseFmi2Child, parseFmi2String]
        split
        · rfl
        · exact reals_setBinary _ _ _ _ _
      rw [strings, parseFmi2Scalar]
      by_cases real : name = "Real"
      · rw [if_neg (not_not.mpr real), mem_reals_setReal]
        simp [real, VariableChild.isReal]
      · rw [if_pos real]
        have other : (VariableChild.element name start tools).isReal = false := by
          unfold VariableChild.isReal
          split
          next same => exact absurd (VariableChild.element.inj same).1 real
          · rfl
        simp [other]

theorem mem_reals_children (node : VariableNode) (vr causality : String) (input : Bool)
    (k : String) (children : List VariableChild) (maps : VrMaps D) :
    k ∈ (children.foldl (parseFmi2Child atof zero config node vr causality) maps).reals input ↔
      (k = vr ∧ causality = causalityText input ∧ ∃ child ∈ children, child.isReal = true) ∨
        k ∈ maps.reals input := by
  induction children generalizing maps with
  | nil => simp
  | cons child children ih =>
      rw [List.foldl_cons, ih, mem_reals_parseFmi2Child]
      simp only [List.exists_mem_cons_iff]
      rw [← or_assoc, ← and_or_left, ← and_or_left, or_comm (a := ∃ _, _)]

theorem mem_reals_variable (maps : VrMaps D) (node : VariableNode) (input : Bool) (k : String) :
    k ∈ (parseFmi2Variable atof zero config maps node).reals input ↔
      DeclaresReal node input k ∨ k ∈ maps.reals input := by
  unfold parseFmi2Variable
  split
  next vr causality hasVr hasCausality =>
    rw [mem_reals_children]
    apply or_congr_left
    constructor
    · rintro ⟨rfl, rfl, real⟩
      exact ⟨hasVr, hasCausality, real⟩
    · rintro ⟨sameVr, sameCausality, real⟩
      rw [hasVr] at sameVr
      rw [hasCausality] at sameCausality
      exact ⟨(Option.some.inj sameVr).symm, Option.some.inj sameCausality, real⟩
  next missing =>
    constructor
    · exact .inr
    · rintro (declares | kept)
      · exact absurd declares.causality (missing k _ declares.valueReference)
      · exact kept

/-- The maps hold the references of the reals that are declared. -/
theorem mem_reals_parseFmi2ModelDesc (nodes : List VariableNode) (input : Bool) (k : String) :
    k ∈ (parseFmi2ModelDesc atof zero config nodes).reals input ↔
      ∃ node ∈ nodes, DeclaresReal node input k := by
  have general : ∀ maps : VrMaps D,
      k ∈ (nodes.foldl (parseFmi2Variable atof zero config) maps).reals input ↔
        (∃ node ∈ nodes, DeclaresReal node input k) ∨ k ∈ maps.reals input := by
    induction nodes with
    | nil => simp
    | cons node nodes ih =>
        intro maps
        rw [List.foldl_cons, ih, mem_reals_variable]
        simp only [List.exists_mem_cons_iff]
        rw [or_left_comm, or_assoc]
  have empty : k ∉ (VrMaps.empty : VrMaps D).reals input := by
    cases input <;> exact AList.notMem_empty k
  rw [parseFmi2ModelDesc, general, or_iff_left empty]

end Parse

/-- References below `2 ^ 31`, written as decimal numbers, and the type of a real variable as the
first element. -/
structure Importable (nodes : List VariableNode) : Prop where
  valueReference : ∀ node ∈ nodes, ∃ n < 2 ^ 31, node.valueReference = some (Nat.repr n)
  first : ∀ node ∈ nodes, (∃ child ∈ node.children, child.isReal = true) →
    firstElement (node.children.map VariableChild.xmlChild) = some "Real"

def scalarVariables (nodes : List VariableNode) : List ScalarVariable :=
  nodes.filterMap fun node => node.valueReference.map node.scalarVariable

/-- The references of a direction, in the order of the hash map. -/
def ModelDescription.vrReal (desc : ModelDescription) (input : Bool) : List UInt32 :=
  if input then desc.vrRxReal else desc.vrTxReal

section Lists

variable {D : Type} {atof : String → D} {zero : D} {config : CodecConfig} {order : HashOrder}
  {nodes : List VariableNode}

theorem vrReal_allocStorage (maps : VrMaps D) (input : Bool) :
    (allocStorage order zero maps).desc.vrReal input =
      (order.keys (maps.reals input)).map fun k => atoi k.toList := by
  cases input <;> rfl

/-- A listed reference is the one of a declared variable, and every declared one is listed. -/
theorem mem_vrReal (importable : Importable nodes) (input : Bool) (vr : UInt32) :
    vr ∈ (allocStorage order zero (parseFmi2ModelDesc atof zero config nodes)).desc.vrReal input ↔
      vr.toNat < 2 ^ 31 ∧ ∃ node ∈ nodes, DeclaresReal node input (vrIdx vr) := by
  rw [vrReal_allocStorage, List.mem_map]
  simp only [(order.perm _).mem_iff, ← AList.mem_keys, mem_reals_parseFmi2ModelDesc]
  constructor
  · rintro ⟨k, ⟨node, member, declares⟩, rfl⟩
    obtain ⟨n, small, text⟩ := importable.valueReference node member
    have same : k = Nat.repr n :=
      Option.some.inj (declares.valueReference.symm.trans text)
    rw [same] at declares ⊢
    rw [toNat_atoi_repr small, vrIdx_atoi_repr small]
    exact ⟨small, node, member, declares⟩
  · rintro ⟨small, node, member, declares⟩
    refine ⟨vrIdx vr, ⟨node, member, declares⟩, ?_⟩
    rw [vrIdx_of_lt small, atoi_repr small]
    exact UInt32.ofNat_toNat

theorem nodup_vrReal (importable : Importable nodes) (input : Bool) :
    ((allocStorage order zero (parseFmi2ModelDesc atof zero config nodes)).desc.vrReal
      input).Nodup := by
  rw [vrReal_allocStorage]
  have keys := ((order.perm
    ((parseFmi2ModelDesc atof zero config nodes).reals input)).nodup_iff).mpr (AList.keys_nodup _)
  refine List.Nodup.map_on ?_ keys
  intro k hk l hl same
  have text : ∀ k ∈ order.keys ((parseFmi2ModelDesc atof zero config nodes).reals input),
      ∃ n < 2 ^ 31, k = Nat.repr n := by
    intro k member
    have parsed := AList.mem_keys.mpr ((order.perm _).mem_iff.mp member)
    obtain ⟨node, listed, declares⟩ := (mem_reals_parseFmi2ModelDesc nodes input k).mp parsed
    obtain ⟨n, small, written⟩ := importable.valueReference node listed
    exact ⟨n, small, Option.some.inj (declares.valueReference.symm.trans written)⟩
  obtain ⟨n, smallN, rfl⟩ := text k hk
  obtain ⟨m, smallM, rfl⟩ := text l hl
  have numbers := congrArg UInt32.toNat same
  rw [toNat_atoi_repr smallN, toNat_atoi_repr smallM] at numbers
  rw [numbers]

end Lists

theorem mem_scalarVariables {nodes : List VariableNode} {node : VariableNode} {k : String}
    (member : node ∈ nodes) (reference : node.valueReference = some k) :
    node.scalarVariable k ∈ scalarVariables nodes := by
  apply List.mem_filterMap.mpr
  exact ⟨node, member, by rw [reference]; rfl⟩

theorem scalarOutput_isSome {fmu : FmuInstanceData} {p : FmuSignalVectorIndex} {vr k : String}
    {causality : Option String} (present : ∃ q, fmu.scalarOutput.lookup k = some q) :
    ∃ q, (indexScalarVariable fmu p vr causality).scalarOutput.lookup k = some q := by
  unfold indexScalarVariable
  split
  · exact lookup_insert_isSome present
  · split
    · exact present
    · exact present

/-- The pass over the scalars leaves an entry for an output. -/
theorem fmuVariableIndex_output {codecs : Codecs} {pos : Nat} {doc : List ScalarVariable}
    {node : ScalarVariable} {name : String} {s t : IndexState} (member : node ∈ doc)
    (first : firstElement node.children = some name) (scalar : isScalarVar name = true)
    (output : node.causality = some "output")
    (indexed : fmuVariableIndex codecs false pos doc s = some t) :
    ∃ p, t.fmu.scalarOutput.lookup node.valueReference = some p := by
  have supported : supportedVar false name = true := scalar
  refine fmuVariableIndex_establishes (I := fun _ => True)
    (P := fun u => ∃ p, u.fmu.scalarOutput.lookup node.valueReference = some p)
    member first supported (fun _ _ _ _ _ _ => trivial) ?_ ?_ trivial indexed
  · intro u v _ step
    rw [(indexVariable_scalar step).fmu, indexScalarVariable, if_pos output]
    exact ⟨_, AList.lookup_insert _⟩
  · intro other _ u v _ present step
    rw [(indexVariable_scalar step).fmu]
    exact scalarOutput_isSome present

theorem setup_output {codecs : Codecs} {doc : List ScalarVariable} {fmu gmu : FmuInstanceData}
    (setup : fmuDefaultSignalsSetup codecs (some doc) fmu = some gmu) {node : ScalarVariable}
    {name : String} (member : node ∈ doc) (first : firstElement node.children = some name)
    (scalar : isScalarVar name = true) (output : node.causality = some "output") :
    ∃ p, gmu.scalarOutput.lookup node.valueReference = some p := by
  obtain ⟨⟨hmu, svs⟩, scalars, rest⟩ := Option.bind_eq_some_iff.mp setup
  obtain ⟨binary, binaries, done⟩ := Option.bind_eq_some_iff.mp rest
  obtain ⟨bmu, more, binaries', same⟩ := setupSv_binary codecs doc hmu svs
  obtain rfl := Option.some.inj (binaries'.symm.trans binaries)
  rw [← Option.some.inj done]
  show ∃ p, bmu.scalarOutput.lookup node.valueReference = some p
  rw [same.output]
  have counted : 0 < fmuVariableCount doc false := by
    have positive := @countChildren_pos false node.children name first scalar
    exact Nat.lt_of_lt_of_le positive (List.single_le_sum (by simp) _ (List.mem_map_of_mem member))
  rw [setupSv, allocateSv] at scalars
  simp only [if_neg (Nat.ne_of_gt counted)] at scalars
  obtain ⟨t, indexed, done⟩ := Option.bind_eq_some_iff.mp scalars
  have final : t.fmu = hmu := congrArg Prod.fst (Option.some.inj done)
  rw [← final]
  exact fmuVariableIndex_output member first scalar output indexed

end DseFmi.Importer
