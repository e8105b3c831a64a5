import DseFmi.Mcl.Engine

/-!
# Encoder functions of the marshal table

Binary variables carry an annotation that asks for a text encoding. The functions are
installed per entry, in the tables of the group the signal was sorted into.
-/

namespace DseFmi.Mcl

open DseFmi.Library

abbrev StringTables := List (Option StringEncode) × List (Option StringDecode)

def FmuSignal.isAscii85 (s : FmuSignal) : Bool := s.variableAnnotationEncoding = some "ascii85"

/-- The round for entry `i` of a group placed at `offset`. -/
def loadEncoderFunc (signals : List FmuSignal) (offset : Nat) (tables : StringTables) (i : Nat) :
    StringTables :=
  match signals[offset + i]? with
  | none => tables
  | some s =>
      if s.isAscii85 then
        (tables.1.set i (some .dseAscii85Encode), tables.2.set i (some .dseAscii85Decode))
      else tables

def MarshalGroup.loadEncoderFuncs (signals : List FmuSignal) (mg : MarshalGroup) :
    MarshalGroup :=
  match mg.kind with
  | .binary =>
      match mg.functions.stringEncode, mg.functions.stringDecode with
      | some encode, some decode =>
          let tables := (List.range mg.count).foldl (loadEncoderFunc signals mg.sourceOffset)
            (encode, decode)
          { mg with functions := ⟨some tables.1, some tables.2⟩ }
      | _, _ => mg
  | _ => mg

def loadEncoderFuncs (m : FmuModel) : FmuModel :=
  { m with
    data := { m.data with
      mgTable := m.data.mgTable.map (MarshalGroup.loadEncoderFuncs m.signals) } }

/-- The entries of a group's tables; out of range there is none. -/
def MarshalGroup.encoderAt (mg : MarshalGroup) (i : Nat) :
    Option StringEncode × Option StringDecode :=
  ((mg.functions.stringEncode.bind fun table => table[i]?).join,
    (mg.functions.stringDecode.bind fun table => table[i]?).join)

def FmuSignal.encoder (s : FmuSignal) : Option StringEncode × Option StringDecode :=
  if s.isAscii85 then (some .dseAscii85Encode, some .dseAscii85Decode) else (none, none)

/-- Every binary signal finds the right functions in its own group at its own index. -/
def EncodersInstalled (m : FmuModel) : Prop :=
  ∀ (j : Nat) (s : FmuSignal), m.signals[j]? = some s → s.variableKind = .binary →
    ∃ mg ∈ m.data.mgTable, ∃ i < mg.count, j = mg.sourceOffset + i ∧ mg.kind = .binary ∧
      mg.encoderAt i = s.encoder

theorem loadEncoderFunc_length (signals : List FmuSignal) (offset count n : Nat) :
    ((List.range n).foldl (loadEncoderFunc signals offset)
        (List.replicate count none, List.replicate count none)).1.length = count ∧
      ((List.range n).foldl (loadEncoderFunc signals offset)
        (List.replicate count none, List.replicate count none)).2.length = count := by
  induction n with
  | zero => simp
  | succ n ih =>
      rw [List.range_succ, List.foldl_append]
      simp only [List.foldl_cons, List.foldl_nil, loadEncoderFunc]
      split
      · exact ih
      · split <;> simp [ih]

/-- The rounds install functions below `n` where the signals ask for them. -/
theorem loadEncoderFunc_foldl (signals : List FmuSignal) (offset count n i : Nat) (hi : i < count)
    (s : FmuSignal) (hs : signals[offset + i]? = some s) :
    let tables := (List.range n).foldl (loadEncoderFunc signals offset)
      (List.replicate count none, List.replicate count none)
    (tables.1[i]?.join, tables.2[i]?.join) = if i < n then s.encoder else (none, none) := by
  induction n with
  | zero => simp [hi]
  | succ n ih =>
      have lengths := loadEncoderFunc_length signals offset count n
      rw [List.range_succ, List.foldl_append]
      simp only [List.foldl_cons, List.foldl_nil] at ih ⊢
      generalize (List.range n).foldl (loadEncoderFunc signals offset)
        (List.replicate count none, List.replicate count none) = tables at ih lengths ⊢
      by_cases last : n = i
      · subst last
        rw [if_neg (Nat.lt_irrefl n)] at ih
        simp only [loadEncoderFunc, hs, FmuSignal.encoder, Nat.lt_succ_self, if_true]
        split
        · simp [lengths, hi]
        · exact ih
      · have other : (i < n + 1) ↔ (i < n) := by omega
        simp only [other, ← ih, loadEncoderFunc]
        split
        · rfl
        · split
          · simp [List.getElem?_set_ne last]
          · rfl

theorem encoderAt_loadEncoderFuncs {signals : List FmuSignal}
    {b : Nat × MarshalKey × List FmuSignal} (binary : b.2.1.kind = .binary) {i : Nat}
    (hi : i < b.2.2.length) {s : FmuSignal} (hs : signals[b.1 + i]? = some s) :
    ((blockGroup b).loadEncoderFuncs signals).encoderAt i = s.encoder := by
  have loaded := loadEncoderFunc_foldl signals b.1 b.2.2.length b.2.2.length i hi s hs
  rw [if_pos hi] at loaded
  rw [← loaded]
  simp [MarshalGroup.loadEncoderFuncs, MarshalGroup.encoderAt, blockGroup, binary]

@[simp] theorem encoderAt_blockGroup (b : Nat × MarshalKey × List FmuSignal) (i : Nat) :
    (blockGroup b).encoderAt i = (none, none) := by
  by_cases binary : b.2.1.kind = .binary <;> by_cases hi : i < b.2.2.length <;>
    simp [MarshalGroup.encoderAt, blockGroup, binary, hi]

/-- Every binary signal has an entry in a group of binary kind. -/
theorem marshalBlocks_binary {signals : List FmuSignal} {j : Nat} {s : FmuSignal}
    (hs : signals[j]? = some s) (binary : s.variableKind = .binary) :
    ∃ b ∈ marshalBlocks signals, ∃ i < b.2.2.length, j = b.1 + i ∧ b.2.1.kind = .binary := by
  obtain ⟨hj, _⟩ := List.getElem?_eq_some_iff.mp hs
  obtain ⟨b, hb, lower, upper⟩ := marshalBlocks_cover hj
  refine ⟨b, hb, j - b.1, by omega, by omega, ?_⟩
  have found := marshalBlocks_source hb (i := j - b.1) (by omega)
  rw [Nat.add_sub_cancel' lower, hs] at found
  have tagged := (marshalBlocks_isRun hb).tagged s (List.mem_of_getElem? found.symm)
  rw [← tagged]
  exact binary

/-- Loading the encoder functions installs what the annotations ask for, and nothing else. -/
theorem loadEncoderFuncs_installed (m : FmuModel) :
    EncodersInstalled (loadEncoderFuncs m.tabled) := by
  intro j s hs binary
  obtain ⟨b, hb, i, hi, rfl, kind⟩ := marshalBlocks_binary hs binary
  have member : (blockGroup b).loadEncoderFuncs m.signals ∈
      (loadEncoderFuncs m.tabled).data.mgTable :=
    List.mem_map_of_mem (List.mem_map_of_mem hb)
  have unchanged : ((blockGroup b).loadEncoderFuncs m.signals).count = b.2.2.length ∧
      ((blockGroup b).loadEncoderFuncs m.signals).sourceOffset = b.1 ∧
      ((blockGroup b).loadEncoderFuncs m.signals).kind = .binary := by
    simp [MarshalGroup.loadEncoderFuncs, blockGroup, kind]
  refine ⟨_, member, i, ?_, ?_, unchanged.2.2, encoderAt_loadEncoderFuncs kind hi hs⟩
  · rwa [unchanged.1]
  · rw [unchanged.2.1]

/-- Without loading them, only plain signals have the right entry. -/
theorem tabled_encodersInstalled_iff (m : FmuModel) :
    EncodersInstalled m.tabled ↔
      ∀ s ∈ m.signals, s.variableKind = .binary → s.isAscii85 = false := by
  constructor
  · intro installed s hs binary
    obtain ⟨j, hj⟩ := List.mem_iff_getElem?.mp hs
    obtain ⟨mg, hmg, i, _, _, _, entry⟩ := installed j s hj binary
    obtain ⟨b, _, rfl⟩ := List.mem_map.mp hmg
    rw [encoderAt_blockGroup, FmuSignal.encoder] at entry
    by_contra annotated
    simp [Bool.not_eq_false _ |>.mp annotated] at entry
  · intro plain j s hs binary
    obtain ⟨b, hb, i, hi, rfl, kind⟩ := marshalBlocks_binary hs binary
    refine ⟨blockGroup b, List.mem_map_of_mem hb, i, hi, rfl, kind, ?_⟩
    rw [encoderAt_blockGroup, FmuSignal.encoder, plain s (List.mem_of_getElem? hs) binary]
    rfl

end DseFmi.Mcl
