import DseFmi.Fmu.Period

/-!
# Binary variables of FMI 3

An FMI 3 importer exchanges binary variables with their sizes. The getter returns the size of
the signal also for an encoded text, which is longer. The setter writes the size of a decoded
text into the array of the caller.
-/

namespace DseFmi.Fmu

open DseFmi.Library

/-- What a pointer to binary data refers to: an encoded text, or bytes. -/
inductive Fmi3Binary where
  | null
  | text (s : CString)
  | bytes (data : List UInt8)
  deriving DecidableEq, Repr

namespace Fmi3Binary

/-- The memory from the pointer on; a text has its terminator. -/
def memory : Fmi3Binary → List UInt8
  | .null => []
  | .text s => s.bytes ++ [0]
  | .bytes data => data

def length : Fmi3Binary → Nat
  | .null => 0
  | .text s => s.bytes.length
  | .bytes data => data.length

/-- The memory read as a text, up to the terminator. -/
def cString (value : Fmi3Binary) : CString :=
  ⟨value.memory.takeWhile (· ≠ 0), fun nul => by simpa using List.mem_takeWhile_imp nul⟩

theorem cString_text (s : CString) : (text s).cString = s := by
  have plain : ∀ b ∈ s.bytes, decide (b ≠ 0) = true := by
    intro b member
    rw [decide_eq_true_iff]
    rintro rfl
    exact s.no_nul member
  obtain ⟨bytes, no_nul⟩ := s
  simp only [cString, memory, List.takeWhile_append_of_pos plain, CString.mk.injEq]
  simp

end Fmi3Binary

section Calls

variable (lib : CLib)

/-- One round of the loop of the getter; without a value the size stays. -/
def getBinaryValue (fmu : FmuInstanceData) (vr : UInt32) (valueSize : Nat) : Nat × Fmi3Binary :=
  match (fmu.binaryTx.lookup (vrIdx vr)).bind fmu.getBinary with
  | none => (valueSize, .null)
  | some signal =>
      match signal.buffer.binary with
      | none => (valueSize, .null)
      | some _ =>
          if signal.buffer.length = 0 then (valueSize, .null)
          else
            match fmu.encodeFunc.lookup (vrIdx vr) with
            | some ef => (signal.buffer.length, .text (lib.encode ef signal.buffer.content))
            | none => (signal.buffer.length, .bytes signal.buffer.content)

/-- The sizes and the values, for the references and the sizes before. -/
def fmi3GetBinary (fmu : FmuInstanceData) (request : List (UInt32 × Nat)) :
    List (Nat × Fmi3Binary) :=
  request.map fun entry => getBinaryValue lib fmu entry.1 entry.2

structure BinaryEntry where
  valueReference : UInt32
  valueSize : Nat
  value : Fmi3Binary
  deriving DecidableEq, Repr

/-- One round of the loop of the setter, with the size that it leaves. -/
def setBinaryValue (fmu : FmuInstanceData) (entry : BinaryEntry) : FmuInstanceData × Nat :=
  let k := vrIdx entry.valueReference
  if entry.value = .null then (fmu, entry.valueSize)
  else
    match fmu.binaryRx.lookup k with
    | none => (fmu, entry.valueSize)
    | some p =>
        match fmu.decodeFunc.lookup k with
        | some df =>
            let data := lib.decode df entry.value.cString
            (fmu.modifyBinary p (lib.append data), data.length)
        | none =>
            (fmu.modifyBinary p (lib.append (entry.value.memory.take entry.valueSize)),
              entry.valueSize)

def setBinaryValues : FmuInstanceData → List BinaryEntry → FmuInstanceData × List Nat
  | fmu, [] => (fmu, [])
  | fmu, entry :: entries =>
      let (fmu, size) := setBinaryValue lib fmu entry
      let (fmu, sizes) := setBinaryValues fmu entries
      (fmu, size :: sizes)

/-- The instance and the array of the sizes after the call; the values are only read. -/
def fmi3SetBinary (fmu : FmuInstanceData) (entries : List BinaryEntry) :
    FmuInstanceData × List Nat :=
  setBinaryValues lib (fmuDefaultSignalsReset fmu) entries

end Calls

def binaryData (lib : CLib) (fmu : FmuInstanceData) (p : FmuSignalVectorIndex)
    (entry : BinaryEntry) : List UInt8 :=
  let k := vrIdx entry.valueReference
  if entry.value = .null ∨ fmu.binaryRx.lookup k ≠ some p then []
  else
    match fmu.decodeFunc.lookup k with
    | some df => lib.decode df entry.value.cString
    | none => entry.value.memory.take entry.valueSize

/-- An entry whose text is decoded into a signal. -/
def Decoded (fmu : FmuInstanceData) (entry : BinaryEntry) (df : DecodeFunc) : Prop :=
  entry.value ≠ .null ∧ (fmu.binaryRx.lookup (vrIdx entry.valueReference)).isSome = true ∧
    fmu.decodeFunc.lookup (vrIdx entry.valueReference) = some df

variable {lib : CLib} {fmu gmu : FmuInstanceData} {p : FmuSignalVectorIndex}

theorem setBinaryValue_rx (entry : BinaryEntry) :
    (setBinaryValue lib fmu entry).1.binaryRx = fmu.binaryRx := by
  unfold setBinaryValue
  dsimp only
  split
  · rfl
  · split
    · rfl
    · split <;> rfl

theorem setBinaryValue_decode (entry : BinaryEntry) :
    (setBinaryValue lib fmu entry).1.decodeFunc = fmu.decodeFunc := by
  unfold setBinaryValue
  dsimp only
  split
  · rfl
  · split
    · rfl
    · split <;> rfl

/-- The size that a round leaves is that of the decoded bytes, or else the old one. -/
theorem setBinaryValue_size {entry : BinaryEntry} :
    (setBinaryValue lib fmu entry).2 = entry.valueSize ↔
      ∀ df, Decoded fmu entry df →
        entry.valueSize = (lib.decode df entry.value.cString).length := by
  unfold setBinaryValue Decoded
  dsimp only
  split
  next null => simp [null]
  next value =>
    split
    next missing => simp [missing]
    next p found =>
      split
      next df decodes =>
        simp only [found, decodes]
        constructor
        · rintro same _ ⟨_, _, ⟨⟩⟩
          exact same.symm
        · intro same
          exact (same df ⟨value, rfl, trivial⟩).symm
      next plain => simp [plain]

theorem setBinaryValue_content {s : BinarySignal} (stored : fmu.getBinary p = some s)
    (entry : BinaryEntry) :
    ∃ s', (setBinaryValue lib fmu entry).1.getBinary p = some s' ∧
      s'.buffer.content = s.buffer.content ++ binaryData lib fmu p entry := by
  unfold setBinaryValue binaryData
  dsimp only
  by_cases null : entry.value = .null
  · rw [if_pos null, if_pos (.inl null), List.append_nil]
    exact ⟨s, stored, rfl⟩
  · rw [if_neg null]
    cases found : fmu.binaryRx.lookup (vrIdx entry.valueReference) with
    | none =>
        rw [if_pos (.inr (by simp)), List.append_nil]
        exact ⟨s, stored, rfl⟩
    | some q =>
        by_cases same : q = p
        · subst same
          rw [if_neg (by simp [null])]
          cases fmu.decodeFunc.lookup (vrIdx entry.valueReference) with
          | none =>
              refine ⟨_, (getBinary_modifyBinary_self fmu q _).trans (by rw [stored]; rfl), ?_⟩
              exact lib.content_append _ _
          | some df =>
              refine ⟨_, (getBinary_modifyBinary_self fmu q _).trans (by rw [stored]; rfl), ?_⟩
              exact lib.content_append _ _
        · rw [if_pos (.inr (by simpa using same)), List.append_nil]
          refine ⟨s, ?_, rfl⟩
          cases fmu.decodeFunc.lookup (vrIdx entry.valueReference) with
          | none => exact (getBinary_modifyBinary_ne fmu same _).trans stored
          | some df => exact (getBinary_modifyBinary_ne fmu same _).trans stored

/-- The bytes depend on the index of the binary variables alone. -/
theorem binaryData_congr (rx : gmu.binaryRx = fmu.binaryRx)
    (decode : gmu.decodeFunc = fmu.decodeFunc) : binaryData lib gmu p = binaryData lib fmu p := by
  funext entry
  rw [binaryData, binaryData, rx, decode]

variable (lib) in
theorem setBinaryValues_content {s : BinarySignal} (stored : fmu.getBinary p = some s)
    (entries : List BinaryEntry) :
    ∃ s', (setBinaryValues lib fmu entries).1.getBinary p = some s' ∧
      s'.buffer.content = s.buffer.content ++ entries.flatMap (binaryData lib fmu p) := by
  induction entries generalizing fmu s with
  | nil => exact ⟨s, stored, (List.append_nil _).symm⟩
  | cons entry entries ih =>
      obtain ⟨s₁, first, content₁⟩ := setBinaryValue_content stored entry
      obtain ⟨s₂, rest, content₂⟩ := ih first
      refine ⟨s₂, rest, ?_⟩
      rw [content₂, content₁, List.append_assoc, List.flatMap_cons,
        binaryData_congr (setBinaryValue_rx entry) (setBinaryValue_decode entry)]

theorem setBinaryValue_size_congr (rx : gmu.binaryRx = fmu.binaryRx)
    (decode : gmu.decodeFunc = fmu.decodeFunc) (entry : BinaryEntry) :
    (setBinaryValue lib gmu entry).2 = (setBinaryValue lib fmu entry).2 := by
  unfold setBinaryValue
  dsimp only
  rw [rx, decode]
  split
  · rfl
  · split
    · rfl
    · split <;> rfl

theorem setBinaryValues_sizes (entries : List BinaryEntry) :
    (setBinaryValues lib fmu entries).2 =
      entries.map fun entry => (setBinaryValue lib fmu entry).2 := by
  induction entries generalizing fmu with
  | nil => rfl
  | cons entry entries ih =>
      rw [setBinaryValues, List.map_cons, List.cons.injEq]
      refine ⟨rfl, ih.trans ?_⟩
      apply List.map_congr_left
      intro other _
      exact setBinaryValue_size_congr (setBinaryValue_rx entry) (setBinaryValue_decode entry) other

theorem reset_index (fmu : FmuInstanceData) :
    (fmuDefaultSignalsReset fmu).binaryRx = fmu.binaryRx ∧
      (fmuDefaultSignalsReset fmu).decodeFunc = fmu.decodeFunc := by
  unfold fmuDefaultSignalsReset
  split <;> exact ⟨rfl, rfl⟩

/-- The sizes that the call leaves are those that its rounds leave. -/
theorem fmi3SetBinary_sizes (entries : List BinaryEntry) :
    (fmi3SetBinary lib fmu entries).2 =
      entries.map fun entry => (setBinaryValue lib fmu entry).2 := by
  obtain ⟨rx, decode⟩ := reset_index fmu
  rw [fmi3SetBinary, setBinaryValues_sizes]
  apply List.map_congr_left
  intro entry _
  exact setBinaryValue_size_congr rx decode entry

variable (lib) in
theorem fmi3SetBinary_content {s : BinarySignal}
    (stored : (fmuDefaultSignalsReset fmu).getBinary p = some s) (entries : List BinaryEntry) :
    ∃ s', (fmi3SetBinary lib fmu entries).1.getBinary p = some s' ∧
      s'.buffer.content = s.buffer.content ++ entries.flatMap (binaryData lib fmu p) := by
  obtain ⟨rx, decode⟩ := reset_index fmu
  obtain ⟨s', after, content⟩ := setBinaryValues_content lib stored entries
  refine ⟨s', after, ?_⟩
  rw [content, binaryData_congr rx decode]

def entriesAgain (entries : List BinaryEntry) (sizes : List Nat) : List BinaryEntry :=
  List.zipWith (fun entry valueSize => { entry with valueSize }) entries sizes

theorem entriesAgain_map (entries : List BinaryEntry) (f : BinaryEntry → Nat) :
    entriesAgain entries (entries.map f) =
      entries.map fun entry => { entry with valueSize := f entry } := by
  rw [entriesAgain, List.zipWith_map_right, List.zipWith_self]

/-- An entry with the size that its round leaves has the same bytes. -/
theorem binaryData_again (entry : BinaryEntry) :
    binaryData lib fmu p { entry with valueSize := (setBinaryValue lib fmu entry).2 } =
      binaryData lib fmu p entry := by
  unfold binaryData
  dsimp only
  split
  · rfl
  next there =>
    obtain ⟨value, found⟩ := not_or.mp there
    cases decodes : fmu.decodeFunc.lookup (vrIdx entry.valueReference) with
    | some df => rfl
    | none =>
        have left : (setBinaryValue lib fmu entry).2 = entry.valueSize := by
          apply setBinaryValue_size.mpr
          rintro df ⟨_, _, decoded⟩
          cases decodes.symm.trans decoded
        rw [left]

/-- The call leaves the arrays of the caller as they were, and the same call in a later step
appends the same bytes to each signal. -/
structure LeavesArrays (lib : CLib) (fmu : FmuInstanceData) (entries : List BinaryEntry) :
    Prop where
  sizes : (fmi3SetBinary lib fmu entries).2 = entries.map BinaryEntry.valueSize
  again : ∀ gmu : FmuInstanceData, gmu.binaryRx = fmu.binaryRx → gmu.decodeFunc = fmu.decodeFunc →
    ∀ p s t, (fmuDefaultSignalsReset fmu).getBinary p = some s →
      (fmuDefaultSignalsReset gmu).getBinary p = some t →
      ∃ data s' t', (fmi3SetBinary lib fmu entries).1.getBinary p = some s' ∧
        s'.buffer.content = s.buffer.content ++ data ∧
        (fmi3SetBinary lib gmu (entriesAgain entries (fmi3SetBinary lib fmu entries).2)).1.getBinary
          p = some t' ∧
        t'.buffer.content = t.buffer.content ++ data

/-- The second call appends the same bytes, whatever the first one has left in the array. -/
theorem fmi3SetBinary_again (entries : List BinaryEntry) (rx : gmu.binaryRx = fmu.binaryRx)
    (decode : gmu.decodeFunc = fmu.decodeFunc) {s t : BinarySignal}
    (first : (fmuDefaultSignalsReset fmu).getBinary p = some s)
    (later : (fmuDefaultSignalsReset gmu).getBinary p = some t) :
    ∃ data s' t', (fmi3SetBinary lib fmu entries).1.getBinary p = some s' ∧
      s'.buffer.content = s.buffer.content ++ data ∧
      (fmi3SetBinary lib gmu (entriesAgain entries (fmi3SetBinary lib fmu entries).2)).1.getBinary
        p = some t' ∧
      t'.buffer.content = t.buffer.content ++ data := by
  obtain ⟨s', after, content⟩ := fmi3SetBinary_content lib first entries
  obtain ⟨t', afterLater, contentLater⟩ := fmi3SetBinary_content lib later
    (entriesAgain entries (fmi3SetBinary lib fmu entries).2)
  refine ⟨_, s', t', after, content, afterLater, contentLater.trans ?_⟩
  rw [binaryData_congr rx decode, fmi3SetBinary_sizes, entriesAgain_map, List.flatMap_map]
  congr 1
  apply List.flatMap_congr
  intro entry _
  exact binaryData_again entry

/-- The arrays stay as they were exactly when each decoded text comes with the size of its
bytes. -/
theorem fmi3SetBinary_leavesArrays_iff (entries : List BinaryEntry) :
    LeavesArrays lib fmu entries ↔
      ∀ entry ∈ entries, ∀ df, Decoded fmu entry df →
        entry.valueSize = (lib.decode df entry.value.cString).length := by
  have sizes : (fmi3SetBinary lib fmu entries).2 = entries.map BinaryEntry.valueSize ↔
      ∀ entry ∈ entries, ∀ df, Decoded fmu entry df →
        entry.valueSize = (lib.decode df entry.value.cString).length := by
    rw [fmi3SetBinary_sizes, List.map_inj_left]
    exact forall₂_congr fun entry _ => setBinaryValue_size
  constructor
  · intro leaves
    exact sizes.mp leaves.sizes
  · intro decoded
    refine ⟨sizes.mpr decoded, ?_⟩
    intro gmu rx decode p s t first later
    exact fmi3SetBinary_again entries rx decode first later

def decodingInput : FmuInstanceData :=
  { FmuInstanceData.null with
    binaryRx := (∅ : HashMap FmuSignalVectorIndex).insert "1" ⟨0, 0⟩
    decodeFunc := (∅ : HashMap DecodeFunc).insert "1" .dseAscii85Decode
    data := [⟨1, [some "network"], none, some [⟨.null, none, none⟩]⟩] }

/-- The caller gets the size of the decoded bytes in place of the one it has passed. -/
theorem fmi3SetBinary_writes_size :
    (fmi3SetBinary greetingLib decodingInput [⟨1, 15, .text greetingAscii85⟩]).2 = [12] ∧
      ¬ LeavesArrays greetingLib decodingInput [⟨1, 15, .text greetingAscii85⟩] := by
  have written :
      (fmi3SetBinary greetingLib decodingInput [⟨1, 15, .text greetingAscii85⟩]).2 = [12] := by
    decide
  refine ⟨written, ?_⟩
  intro leaves
  have same := leaves.sizes
  rw [written] at same
  exact absurd same (by decide)

/-- The size of a value that was got is the length of its data, and setting it appends the bytes
of its signal. -/
structure Exchanged (lib : CLib) (signal : BinarySignal) (got : Nat × Fmi3Binary)
    (gmu : FmuInstanceData) (vr : UInt32) (p : FmuSignalVectorIndex) (t : BinarySignal) : Prop where
  size : got.1 = got.2.length
  appended : ∃ t', (fmi3SetBinary lib gmu [⟨vr, got.1, got.2⟩]).1.getBinary p = some t' ∧
    t'.buffer.content = t.buffer.content ++ signal.buffer.content

section Exchange

variable {vr vr' : UInt32} {signal t : BinarySignal}

theorem Buffer.content_eq_nil_iff {b : Buffer} : b.content = [] ↔ b.length = 0 := by
  rw [← List.length_eq_zero_iff, Buffer.length_content]

theorem getBinaryValue_eq (tx : (fmu.binaryTx.lookup (vrIdx vr)).bind fmu.getBinary = some signal)
    (size : Nat) :
    getBinaryValue lib fmu vr size =
      if signal.buffer.content = [] then (size, .null)
      else (signal.buffer.length,
        match fmu.encodeFunc.lookup (vrIdx vr) with
        | some ef => .text (lib.encode ef signal.buffer.content)
        | none => .bytes signal.buffer.content) := by
  rw [getBinaryValue, tx]
  dsimp only
  cases stored : signal.buffer.binary with
  | none =>
      have empty : signal.buffer.content = [] := by
        rw [Buffer.content, stored]
        exact List.take_nil
      rw [if_pos empty]
  | some data =>
      by_cases empty : signal.buffer.length = 0
      · rw [if_pos empty, if_pos (Buffer.content_eq_nil_iff.mpr empty)]
      · rw [if_neg empty, if_neg (mt Buffer.content_eq_nil_iff.mp empty)]
        cases fmu.encodeFunc.lookup (vrIdx vr) with
        | none => rfl
        | some ef => rfl

/-- The bytes of the signal are set again, encoded or not. -/
theorem binaryData_got {size : Nat}
    (inverts : lib.dseAscii85Decode (lib.dseAscii85Encode signal.buffer.content) =
      signal.buffer.content)
    (tx : (fmu.binaryTx.lookup (vrIdx vr)).bind fmu.getBinary = some signal)
    (rx : gmu.binaryRx.lookup (vrIdx vr') = some p)
    (same : (fmu.encodeFunc.lookup (vrIdx vr)).isSome =
      (gmu.decodeFunc.lookup (vrIdx vr')).isSome) :
    binaryData lib gmu p ⟨vr', (getBinaryValue lib fmu vr size).1,
      (getBinaryValue lib fmu vr size).2⟩ = signal.buffer.content := by
  rw [getBinaryValue_eq tx]
  by_cases empty : signal.buffer.content = []
  · rw [if_pos empty, binaryData, if_pos (.inl rfl), empty]
  · rw [if_neg empty, binaryData]
    dsimp only
    cases encodes : fmu.encodeFunc.lookup (vrIdx vr) with
    | none =>
        have plain : gmu.decodeFunc.lookup (vrIdx vr') = none := by
          rw [encodes] at same
          exact Option.isSome_eq_false_iff.mp same.symm |> Option.isNone_iff_eq_none.mp
        rw [plain, if_neg (by simp [rx])]
        dsimp only [Fmi3Binary.memory]
        rw [← Buffer.length_content, List.take_length]
    | some ef =>
        obtain ⟨df, decodes⟩ : ∃ df, gmu.decodeFunc.lookup (vrIdx vr') = some df := by
          rw [encodes] at same
          exact Option.isSome_iff_exists.mp same.symm
        rw [decodes, if_neg (by simp [rx])]
        cases ef
        cases df
        dsimp only
        rw [Fmi3Binary.cString_text]
        exact inverts

/-- A value comes with its length exactly when there is none and the caller has passed the size 0,
or it is not encoded, or its text is as long as its bytes. -/
theorem fmi3GetBinary_exchanged_iff
    (inverts : lib.dseAscii85Decode (lib.dseAscii85Encode signal.buffer.content) =
      signal.buffer.content)
    (tx : (fmu.binaryTx.lookup (vrIdx vr)).bind fmu.getBinary = some signal)
    (rx : gmu.binaryRx.lookup (vrIdx vr') = some p)
    (stored : (fmuDefaultSignalsReset gmu).getBinary p = some t)
    (same : (fmu.encodeFunc.lookup (vrIdx vr)).isSome = (gmu.decodeFunc.lookup (vrIdx vr')).isSome)
    {request : List (UInt32 × Nat)} {i size : Nat} (listed : request[i]? = some (vr, size)) :
    ∃ got, (fmi3GetBinary lib fmu request)[i]? = some got ∧
      (Exchanged lib signal got gmu vr' p t ↔
        (signal.buffer.content = [] ∧ size = 0) ∨
          (signal.buffer.content ≠ [] ∧ ∀ ef, fmu.encodeFunc.lookup (vrIdx vr) = some ef →
            (lib.encode ef signal.buffer.content).bytes.length =
              signal.buffer.content.length)) := by
  refine ⟨getBinaryValue lib fmu vr size, ?_, ?_⟩
  · rw [fmi3GetBinary, List.getElem?_map, listed]
    rfl
  · have appended : ∃ t', (fmi3SetBinary lib gmu [⟨vr', (getBinaryValue lib fmu vr size).1,
        (getBinaryValue lib fmu vr size).2⟩]).1.getBinary p = some t' ∧
          t'.buffer.content = t.buffer.content ++ signal.buffer.content := by
      obtain ⟨t', after, content⟩ := fmi3SetBinary_content lib stored
        [⟨vr', (getBinaryValue lib fmu vr size).1, (getBinaryValue lib fmu vr size).2⟩]
      refine ⟨t', after, ?_⟩
      rw [content, List.flatMap_singleton, binaryData_got inverts tx rx same]
    have sized : Exchanged lib signal (getBinaryValue lib fmu vr size) gmu vr' p t ↔
        (getBinaryValue lib fmu vr size).1 = (getBinaryValue lib fmu vr size).2.length :=
      ⟨fun exchanged => exchanged.size, fun size => ⟨size, appended⟩⟩
    rw [sized, getBinaryValue_eq tx]
    by_cases empty : signal.buffer.content = []
    · simp [empty, Fmi3Binary.length]
    · rw [if_neg empty, or_iff_right (fun none_left => empty none_left.1), and_iff_right empty]
      cases fmu.encodeFunc.lookup (vrIdx vr) with
      | none => simp [Fmi3Binary.length, Buffer.length_content]
      | some ef =>
          rw [Buffer.length_content]
          constructor
          · rintro same _ ⟨⟩
            exact same.symm
          · intro same
            exact (same ef rfl).symm

end Exchange

def greetingSignal : BinarySignal := ⟨⟨some greeting, 12, by decide⟩, none, none⟩

def encodingOutput : FmuInstanceData :=
  { FmuInstanceData.null with
    binaryTx := (∅ : HashMap FmuSignalVectorIndex).insert "2" ⟨0, 0⟩
    encodeFunc := (∅ : HashMap EncodeFunc).insert "2" .dseAscii85Encode
    data := [⟨1, [some "network"], none, some [greetingSignal]⟩] }

theorem fmi3GetBinary_exchanged_iff_greeting :
    ∃ got, (fmi3GetBinary greetingLib encodingOutput [(2, 0)])[0]? = some got ∧
      (Exchanged greetingLib greetingSignal got decodingInput 1 ⟨0, 0⟩ ⟨.null, none, none⟩ ↔
        (greetingSignal.buffer.content = [] ∧ 0 = 0) ∨
          (greetingSignal.buffer.content ≠ [] ∧
            ∀ ef, encodingOutput.encodeFunc.lookup (vrIdx 2) = some ef →
              (greetingLib.encode ef greetingSignal.buffer.content).bytes.length =
                greetingSignal.buffer.content.length)) := by
  have inverts : greetingLib.dseAscii85Decode
      (greetingLib.dseAscii85Encode greetingSignal.buffer.content) =
        greetingSignal.buffer.content := by decide
  have tx : (encodingOutput.binaryTx.lookup (vrIdx 2)).bind encodingOutput.getBinary =
      some greetingSignal := by decide
  have rx : decodingInput.binaryRx.lookup (vrIdx 1) = some ⟨0, 0⟩ := by decide
  have stored : (fmuDefaultSignalsReset decodingInput).getBinary ⟨0, 0⟩ =
      some ⟨.null, none, none⟩ := by decide
  have same : (encodingOutput.encodeFunc.lookup (vrIdx 2)).isSome =
      (decodingInput.decodeFunc.lookup (vrIdx 1)).isSome := by decide
  have listed : [((2 : UInt32), 0)][0]? = some (2, 0) := rfl
  exact fmi3GetBinary_exchanged_iff inverts tx rx stored same listed

/-- The text has 15 characters and comes with the size of the 12 bytes. -/
theorem fmi3GetBinary_wrong_size :
    (fmi3GetBinary greetingLib encodingOutput [(2, 0)])[0]? = some (12, .text greetingAscii85) ∧
      ¬ Exchanged greetingLib greetingSignal (12, .text greetingAscii85) decodingInput 1 ⟨0, 0⟩
        ⟨.null, none, none⟩ := by
  refine ⟨by decide, ?_⟩
  intro exchanged
  exact absurd exchanged.size (by decide)

end DseFmi.Fmu
