import DseFmi.Fmu.Data

/-!
# Reset of the binary signals

A codec reads and writes its signal through a stream. The default handler resets the
signals of all binary vectors, inputs and outputs alike, once between two steps: a signal
with a codec by a seek of its stream, any other by its length.
-/

namespace DseFmi.Fmu

def einval : Int := 22

def enostr : Int := 60

inductive NCodecSeek where
  | set
  | cur
  | atEnd
  | reset
  | other
  deriving DecidableEq, Repr

/-- A position is kept inside the bytes in use. -/
def BinarySignal.seekTo (s : BinarySignal) (pos : Nat) : BinarySignal × Int :=
  let pos := if pos > s.buffer.length then s.buffer.length else pos
  ({ s with ncodec := some pos }, pos)

def streamSeek (s : BinarySignal) (pos : Nat) (op : NCodecSeek) : BinarySignal × Int :=
  match s.ncodec, op with
  | none, _ => (s, -enostr)
  | some _, .set => s.seekTo pos
  | some cur, .cur => s.seekTo ((cur + pos) % 2 ^ 64)
  | some _, .atEnd => s.seekTo s.buffer.length
  | some _, .reset => ({ s with ncodec := some 0, buffer := s.buffer.reset }, 0)
  | some _, .other => (s, -einval)

def ncodecTruncate (s : BinarySignal) : BinarySignal := (streamSeek s 0 .reset).1

def BinarySignal.reset (s : BinarySignal) : BinarySignal :=
  if s.ncodec.isSome then ncodecTruncate s else { s with buffer := s.buffer.reset }

/-- The stream of the codec, if there is one, is at its start. -/
def BinarySignal.Rewound (s : BinarySignal) : Prop := s.ncodec.getD 0 = 0

@[simp] theorem BinarySignal.buffer_reset (s : BinarySignal) : s.reset.buffer = s.buffer.reset := by
  obtain ⟨buffer, mimeType, ncodec⟩ := s
  cases ncodec with
  | none => rfl
  | some pos => rfl

theorem BinarySignal.rewound_reset (s : BinarySignal) : s.reset.Rewound := by
  obtain ⟨buffer, mimeType, ncodec⟩ := s
  cases ncodec with
  | none => rfl
  | some pos => rfl

def FmuSignalVector.resetBinary (sv : FmuSignalVector) : FmuSignalVector :=
  { sv with
    binary := sv.binary.map fun binary =>
      binary.mapIdx fun i s => if i < sv.count then s.reset else s }

def fmuDefaultSignalsReset (fmu : FmuInstanceData) : FmuInstanceData :=
  if fmu.signalsReset = false then
    { fmu with data := fmu.data.map FmuSignalVector.resetBinary, signalsReset := true }
  else fmu

def FmuSignalVector.getBinary (sv : FmuSignalVector) (i : Nat) : Option BinarySignal :=
  sv.binary.bind fun binary => binary[i]?

def FmuSignalVector.modifyBinary (sv : FmuSignalVector) (i : Nat)
    (f : BinarySignal → BinarySignal) : FmuSignalVector :=
  { sv with binary := sv.binary.map fun binary => binary.modify i f }

def FmuInstanceData.getBinary (fmu : FmuInstanceData) (p : FmuSignalVectorIndex) :
    Option BinarySignal :=
  fmu.data[p.sv]?.bind fun sv => sv.getBinary p.vi

def FmuInstanceData.modifyBinary (fmu : FmuInstanceData) (p : FmuSignalVectorIndex)
    (f : BinarySignal → BinarySignal) : FmuInstanceData :=
  { fmu with data := fmu.data.modify p.sv fun sv => sv.modifyBinary p.vi f }

/-- The storage of a binary vector has the counted number of entries. -/
def FmuSignalVector.Allocated (sv : FmuSignalVector) : Prop :=
  ∀ binary, sv.binary = some binary → binary.length = sv.count

def FmuInstanceData.Allocated (fmu : FmuInstanceData) : Prop :=
  ∀ sv ∈ fmu.data, sv.Allocated

theorem FmuSignalVector.getBinary_resetBinary {sv : FmuSignalVector} (allocated : sv.Allocated)
    (i : Nat) : sv.resetBinary.getBinary i = (sv.getBinary i).map BinarySignal.reset := by
  obtain ⟨count, signal, scalar, binary⟩ := sv
  cases binary with
  | none => rfl
  | some binary =>
      have size : binary.length = count := allocated binary rfl
      simp only [getBinary, resetBinary, Option.map_some, Option.bind_some, List.getElem?_mapIdx]
      cases found : binary[i]? with
      | none => rfl
      | some s =>
          have inside : i < count := size ▸ (List.getElem?_eq_some_iff.mp found).1
          simp only [Option.map_some, if_pos inside]

theorem FmuSignalVector.Allocated.resetBinary {sv : FmuSignalVector} (allocated : sv.Allocated) :
    sv.resetBinary.Allocated := by
  intro binary reset
  obtain ⟨before, hbefore, rfl⟩ := Option.map_eq_some_iff.mp reset
  rw [List.length_mapIdx]
  exact allocated before hbefore

theorem FmuSignalVector.Allocated.modifyBinary {sv : FmuSignalVector} (allocated : sv.Allocated)
    (i : Nat) (f : BinarySignal → BinarySignal) : (sv.modifyBinary i f).Allocated := by
  intro binary modified
  obtain ⟨before, hbefore, rfl⟩ := Option.map_eq_some_iff.mp modified
  rw [List.length_modify]
  exact allocated before hbefore

theorem FmuSignalVector.getBinary_modifyBinary_self (sv : FmuSignalVector) (i : Nat)
    (f : BinarySignal → BinarySignal) :
    (sv.modifyBinary i f).getBinary i = (sv.getBinary i).map f := by
  obtain ⟨count, signal, scalar, binary⟩ := sv
  cases binary with
  | none => rfl
  | some binary => simp [getBinary, modifyBinary]

theorem FmuSignalVector.getBinary_modifyBinary_ne (sv : FmuSignalVector) {i j : Nat} (other : i ≠ j)
    (f : BinarySignal → BinarySignal) : (sv.modifyBinary i f).getBinary j = sv.getBinary j := by
  obtain ⟨count, signal, scalar, binary⟩ := sv
  cases binary with
  | none => rfl
  | some binary => simp [getBinary, modifyBinary, List.getElem?_modify_ne _ _ other]

theorem getBinary_modifyBinary_self (fmu : FmuInstanceData) (p : FmuSignalVectorIndex)
    (f : BinarySignal → BinarySignal) :
    (fmu.modifyBinary p f).getBinary p = (fmu.getBinary p).map f := by
  simp only [FmuInstanceData.getBinary, FmuInstanceData.modifyBinary, List.getElem?_modify_eq]
  cases fmu.data[p.sv]? with
  | none => rfl
  | some sv => exact sv.getBinary_modifyBinary_self p.vi f

theorem getBinary_modifyBinary_ne (fmu : FmuInstanceData) {p q : FmuSignalVectorIndex}
    (different : p ≠ q) (f : BinarySignal → BinarySignal) :
    (fmu.modifyBinary p f).getBinary q = fmu.getBinary q := by
  by_cases same : p.sv = q.sv
  · have other : p.vi ≠ q.vi := fun equal => different (by cases p; cases q; simp_all)
    simp only [FmuInstanceData.getBinary, FmuInstanceData.modifyBinary, same,
      List.getElem?_modify_eq]
    cases fmu.data[q.sv]? with
    | none => rfl
    | some sv => exact sv.getBinary_modifyBinary_ne other f
  · simp only [FmuInstanceData.getBinary, FmuInstanceData.modifyBinary,
      List.getElem?_modify_ne _ _ same]

theorem FmuInstanceData.Allocated.modifyBinary {fmu : FmuInstanceData} (allocated : fmu.Allocated)
    (p : FmuSignalVectorIndex) (f : BinarySignal → BinarySignal) :
    (fmu.modifyBinary p f).Allocated := by
  intro sv member
  obtain ⟨i, inside, rfl⟩ := List.mem_iff_getElem.mp member
  have inside_data : i < fmu.data.length := by simpa [FmuInstanceData.modifyBinary] using inside
  have before := allocated _ (List.getElem_mem inside_data)
  simp only [FmuInstanceData.modifyBinary, List.getElem_modify]
  split
  · exact before.modifyBinary p.vi f
  · exact before

section Reset

variable {fmu : FmuInstanceData}

@[simp] theorem reset_signalsReset (fmu : FmuInstanceData) :
    (fmuDefaultSignalsReset fmu).signalsReset = true := by
  unfold fmuDefaultSignalsReset
  split
  · rfl
  next done => exact Bool.not_eq_false _ ▸ done

theorem reset_of_signalsReset (done : fmu.signalsReset = true) :
    fmuDefaultSignalsReset fmu = fmu := by
  rw [fmuDefaultSignalsReset, done]
  rfl

theorem reset_of_not_signalsReset (pending : fmu.signalsReset = false) :
    fmuDefaultSignalsReset fmu =
      { fmu with data := fmu.data.map FmuSignalVector.resetBinary, signalsReset := true } := by
  rw [fmuDefaultSignalsReset, if_pos pending]

theorem getBinary_reset (allocated : fmu.Allocated) (pending : fmu.signalsReset = false)
    (p : FmuSignalVectorIndex) :
    (fmuDefaultSignalsReset fmu).getBinary p = (fmu.getBinary p).map BinarySignal.reset := by
  rw [reset_of_not_signalsReset pending]
  simp only [FmuInstanceData.getBinary, List.getElem?_map]
  cases found : fmu.data[p.sv]? with
  | none => rfl
  | some sv =>
      exact FmuSignalVector.getBinary_resetBinary (allocated sv (List.mem_of_getElem? found)) p.vi

theorem FmuInstanceData.Allocated.reset (allocated : fmu.Allocated) :
    (fmuDefaultSignalsReset fmu).Allocated := by
  unfold fmuDefaultSignalsReset
  split
  · intro sv member
    obtain ⟨before, listed, rfl⟩ := List.mem_map.mp member
    exact (allocated before listed).resetBinary
  · exact allocated

end Reset

end DseFmi.Fmu
