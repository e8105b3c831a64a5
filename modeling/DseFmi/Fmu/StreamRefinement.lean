import DseFmi.Fmu.Period
import DseFmi.Fmu.Stream
import DseFmi.Library.ByteFile

/-!
# Streams refine files

Each signal with a stream is a file with a position. A run of calls, for any signals in any
order, is a run of the files, each of which sees its own calls only.
-/

namespace DseFmi.Fmu

open DseFmi.Library

def fileCall (f : ByteFile UInt8) : StreamCall → ByteFile UInt8 × StreamResult
  | .read .nc => (f, ⟨f.rest, f.rest.length⟩)
  | .read .update => (f.seek f.content.length, ⟨f.rest, f.rest.length⟩)
  | .write data => (f.write data, ⟨[], data.length⟩)
  | .seek pos .set => (f.seek pos, ⟨[], (f.seek pos).pos⟩)
  | .seek pos .cur =>
      (f.seek ((f.pos + pos) % 2 ^ 64), ⟨[], (f.seek ((f.pos + pos) % 2 ^ 64)).pos⟩)
  | .seek _ .atEnd => (f.seek f.content.length, ⟨[], f.content.length⟩)
  | .seek _ .reset => (.empty, ⟨[], 0⟩)
  | .seek _ .other => (f, ⟨[], -einval⟩)
  | .tell => (f, ⟨[], f.pos⟩)
  | .eof => (f, ⟨[], if f.eof then 1 else 0⟩)
  | .append data => (f.append data, ⟨[], 0⟩)

abbrev Files := FmuSignalVectorIndex → Option (ByteFile UInt8)

def Files.step (files : Files) (p : FmuSignalVectorIndex) (call : StreamCall) : Files :=
  fun q => if q = p then (files p).map fun f => (fileCall f call).1 else files q

/-- What each call returns, if its signal has a stream. -/
def fileRun : Files → List (FmuSignalVectorIndex × StreamCall) →
    Files × List (FmuSignalVectorIndex × Option StreamResult)
  | files, [] => (files, [])
  | files, (p, call) :: calls =>
      let (after, results) := fileRun (files.step p call) calls
      (after, (p, (files p).map fun f => (fileCall f call).2) :: results)

/-- No content becomes too long for its length. -/
def Fits : Files → List (FmuSignalVectorIndex × StreamCall) → Prop
  | _, [] => True
  | files, (p, call) :: calls =>
      (∀ f, files p = some f → (fileCall f call).1.content.length < 2 ^ 32) ∧
        Fits (files.step p call) calls

def callsFor (p : FmuSignalVectorIndex) (calls : List (FmuSignalVectorIndex × StreamCall)) :
    List StreamCall :=
  (calls.filter fun call => call.1 = p).map Prod.snd

structure Represents (s : BinarySignal) (f : ByteFile UInt8) : Prop where
  content : s.buffer.content = f.content
  ncodec : s.ncodec = some f.pos

variable {lib : CLib} {s : BinarySignal} {f : ByteFile UInt8}

theorem Represents.length (represents : Represents s f) : s.buffer.length = f.content.length := by
  rw [← represents.content, Buffer.length_content]

theorem Represents.seekTo (represents : Represents s f) (pos : Nat) :
    Represents (s.seekTo pos).1 (f.seek pos) ∧ (s.seekTo pos).2 = (f.seek pos).pos := by
  have clamped : (if pos > s.buffer.length then s.buffer.length else pos) =
      min pos f.content.length := by
    rw [represents.length]
    split <;> omega
  refine ⟨⟨represents.content, ?_⟩, ?_⟩
  · exact congrArg some clamped
  · exact congrArg Int.ofNat clamped

theorem Represents.streamRead (represents : Represents s f) (posOp : NCodecPos) :
    Represents (Fmu.streamRead s posOp).1 (fileCall f (.read posOp)).1 ∧
      (Fmu.streamRead s posOp).2 = (fileCall f (.read posOp)).2 := by
  have length := represents.length
  have content := represents.content
  have bounded := f.pos_le
  unfold Fmu.streamRead
  rw [represents.ncodec]
  cases stored : s.buffer.binary with
  | none =>
      have empty : f.content = [] := by
        rw [← content, Buffer.content, stored]
        exact List.take_nil
      have start : f.pos = 0 := by
        rw [empty] at bounded
        exact Nat.le_zero.mp bounded
      have rest : f.rest = [] := by rw [ByteFile.rest, empty, List.drop_nil]
      cases posOp with
      | nc =>
          refine ⟨represents, ?_⟩
          simp [fileCall, rest]
      | update =>
          refine ⟨⟨represents.content, ?_⟩, ?_⟩
          · simp [fileCall, ByteFile.seek, empty, represents.ncodec, start]
          · simp [fileCall, rest]
  | some buffer =>
      have rest : (buffer.drop f.pos).take (s.buffer.length - f.pos) = f.rest := by
        rw [ByteFile.rest, ← content, Buffer.content, stored, Option.getD_some, List.drop_take]
      have size : f.rest.length = s.buffer.length - f.pos := by
        rw [ByteFile.rest, List.length_drop, length]
      dsimp only
      split
      next atEnd =>
        have short : f.rest = [] := by
          apply List.eq_nil_of_length_eq_zero
          omega
        have same : f.pos = f.content.length := by omega
        cases posOp with
        | nc =>
            refine ⟨represents, ?_⟩
            simp [fileCall, short]
        | update =>
            refine ⟨⟨represents.content, ?_⟩, ?_⟩
            · simp [fileCall, ByteFile.seek, represents.ncodec, same]
            · simp [fileCall, short]
      · cases posOp with
        | nc =>
            refine ⟨represents, ?_⟩
            simp [fileCall, rest, size]
        | update =>
            refine ⟨⟨represents.content, ?_⟩, ?_⟩
            · simp [fileCall, ByteFile.seek, length]
            · simp [fileCall, rest, size]

theorem Buffer.content_truncate (b : Buffer) (pos : Nat) :
    (b.truncate pos).content = b.content.take pos := by
  simp [Buffer.content, Buffer.truncate, List.take_take]

theorem Represents.streamWrite (represents : Represents s f) {data : List UInt8}
    (fits : (f.write data).content.length < 2 ^ 32) :
    Represents (Fmu.streamWrite lib s data).1 (f.write data) ∧
      (Fmu.streamWrite lib s data).2 = ⟨[], data.length⟩ := by
  have inside : ¬ f.pos > s.buffer.length := by
    rw [represents.length]
    exact Nat.not_lt.mpr f.pos_le
  rw [← ByteFile.pos_write] at fits
  unfold Fmu.streamWrite
  rw [represents.ncodec]
  dsimp only
  rw [if_neg inside]
  refine ⟨⟨?_, ?_⟩, rfl⟩
  · rw [lib.content_append, Buffer.content_truncate, represents.content]
    rfl
  · exact congrArg some (Nat.mod_eq_of_lt fits)

theorem Represents.run (represents : Represents s f) {call : StreamCall}
    (fits : (fileCall f call).1.content.length < 2 ^ 32) :
    Represents (call.run lib s).1 (fileCall f call).1 ∧
      (call.run lib s).2 = (fileCall f call).2 := by
  cases call with
  | read posOp => exact represents.streamRead posOp
  | write data => exact represents.streamWrite fits
  | seek pos op =>
      have seeks (pos : Nat) := represents.seekTo pos
      cases op with
      | set => simp [StreamCall.run, fileCall, streamSeek, represents.ncodec, seeks]
      | cur => simp [StreamCall.run, fileCall, streamSeek, represents.ncodec, seeks]
      | atEnd =>
          have top : (f.seek f.content.length).pos = f.content.length := Nat.min_self _
          simp [StreamCall.run, fileCall, streamSeek, represents.ncodec, seeks, represents.length,
            top]
      | reset =>
          simp only [StreamCall.run, fileCall, streamSeek, represents.ncodec]
          exact ⟨⟨Buffer.content_reset _, rfl⟩, trivial⟩
      | other =>
          simp only [StreamCall.run, fileCall, streamSeek, represents.ncodec]
          exact ⟨represents, trivial⟩
  | tell =>
      refine ⟨represents, ?_⟩
      simp [StreamCall.run, streamTell, fileCall, represents.ncodec]
  | eof =>
      refine ⟨represents, ?_⟩
      have bounded := f.pos_le
      simp only [StreamCall.run, streamEof, fileCall, represents.ncodec, represents.length,
        ByteFile.eof, decide_eq_true_eq]
      split <;> split <;> first | rfl | omega
  | append data =>
      refine ⟨⟨?_, represents.ncodec⟩, rfl⟩
      rw [StreamCall.run, CLib.append, lib.content_append, represents.content]
      rfl

def Represented (fmu : FmuInstanceData) (files : Files) : Prop :=
  ∀ p f, files p = some f → ∃ s, fmu.getBinary p = some s ∧ Represents s f

def Matches (result : FmuSignalVectorIndex × StreamResult)
    (expected : FmuSignalVectorIndex × Option StreamResult) : Prop :=
  result.1 = expected.1 ∧ ∀ r, expected.2 = some r → result.2 = r

variable {fmu : FmuInstanceData} {files : Files}

theorem Represented.runCall (represented : Represented fmu files) (p : FmuSignalVectorIndex)
    {call : StreamCall}
    (fits : ∀ f, files p = some f → (fileCall f call).1.content.length < 2 ^ 32) :
    Represented (Fmu.runCall lib fmu p call).1 (files.step p call) ∧
      Matches (p, (Fmu.runCall lib fmu p call).2)
        (p, (files p).map fun f => (fileCall f call).2) := by
  refine ⟨?_, rfl, ?_⟩
  · intro q f found
    by_cases same : q = p
    · rw [Files.step, if_pos same] at found
      obtain ⟨before, open_before, rfl⟩ := Option.map_eq_some_iff.mp found
      obtain ⟨s, stored, represents⟩ := represented p before open_before
      refine ⟨(call.run lib s).1, ?_, (represents.run (fits before open_before)).1⟩
      rw [Fmu.runCall, same, getBinary_modifyBinary_self, stored]
      rfl
    · rw [Files.step, if_neg same] at found
      obtain ⟨s, stored, represents⟩ := represented q f found
      refine ⟨s, ?_, represents⟩
      rw [Fmu.runCall, getBinary_modifyBinary_ne fmu (Ne.symm same), stored]
  · intro r expected
    obtain ⟨before, open_before, rfl⟩ := Option.map_eq_some_iff.mp expected
    obtain ⟨s, stored, represents⟩ := represented p before open_before
    rw [← (represents.run (fits before open_before)).2, Fmu.runCall, stored]
    rfl

theorem Represented.streamRun {calls : List (FmuSignalVectorIndex × StreamCall)}
    (represented : Represented fmu files) (fits : Fits files calls) :
    Represented (Fmu.streamRun lib fmu calls).1 (fileRun files calls).1 ∧
      List.Forall₂ Matches (Fmu.streamRun lib fmu calls).2 (fileRun files calls).2 := by
  induction calls generalizing fmu files with
  | nil => exact ⟨represented, .nil⟩
  | cons entry calls ih =>
      obtain ⟨p, call⟩ := entry
      obtain ⟨first, rest⟩ := fits
      obtain ⟨after, result⟩ := represented.runCall p first
      obtain ⟨final, results⟩ := ih after rest
      exact ⟨final, .cons result results⟩

theorem fileRun_callsFor (files : Files) (calls : List (FmuSignalVectorIndex × StreamCall))
    (p : FmuSignalVectorIndex) :
    (fileRun files calls).1 p =
      (files p).map ((callsFor p calls).foldl fun f call => (fileCall f call).1) := by
  induction calls generalizing files with
  | nil => exact Option.map_id'.symm
  | cons entry calls ih =>
      obtain ⟨q, call⟩ := entry
      have rest := ih (files.step q call)
      by_cases same : q = p
      · subst same
        rw [callsFor, List.filter_cons_of_pos (by simp)]
        rw [Files.step, if_pos rfl, Option.map_map] at rest
        exact rest
      · rw [callsFor, List.filter_cons_of_neg (by simpa using same)]
        rw [Files.step, if_neg (Ne.symm same)] at rest
        exact rest

theorem getBinary_streamRun {calls : List (FmuSignalVectorIndex × StreamCall)}
    {p : FmuSignalVectorIndex} (other : ∀ entry ∈ calls, entry.1 ≠ p) :
    (streamRun lib fmu calls).1.getBinary p = fmu.getBinary p := by
  induction calls generalizing fmu with
  | nil => rfl
  | cons entry calls ih =>
      have rest : (streamRun lib (runCall lib fmu entry.1 entry.2).1 calls).1.getBinary p =
          (runCall lib fmu entry.1 entry.2).1.getBinary p :=
        ih fun later member => other later (List.mem_cons_of_mem entry member)
      have first : (runCall lib fmu entry.1 entry.2).1.getBinary p = fmu.getBinary p :=
        getBinary_modifyBinary_ne fmu (other entry List.mem_cons_self) _
      exact rest.trans first

/-- A run of calls is a run of the files, in which each call returns what it returns for its
file. A file sees its own calls only, and signals without calls stay as they are. -/
theorem streamRun_refines {calls : List (FmuSignalVectorIndex × StreamCall)}
    (represented : Represented fmu files) (fits : Fits files calls) :
    Represented (streamRun lib fmu calls).1 (fileRun files calls).1 ∧
      List.Forall₂ Matches (streamRun lib fmu calls).2 (fileRun files calls).2 ∧
      (∀ p, (fileRun files calls).1 p =
        (files p).map ((callsFor p calls).foldl fun f call => (fileCall f call).1)) ∧
      ∀ p, (∀ entry ∈ calls, entry.1 ≠ p) →
        (streamRun lib fmu calls).1.getBinary p = fmu.getBinary p := by
  obtain ⟨final, results⟩ := represented.streamRun fits
  refine ⟨final, results, fileRun_callsFor files calls, ?_⟩
  intro p other
  exact getBinary_streamRun other

def twoStreams : FmuInstanceData :=
  let buffer : Buffer := ⟨some [1, 2, 3], 2, by decide⟩
  { FmuInstanceData.null with
    data :=
      [⟨2, [some "a", some "b"], none, some [⟨buffer, none, some 1⟩, ⟨.null, none, some 0⟩]⟩] }

def twoFiles : Files := fun p =>
  if p = ⟨0, 0⟩ then some ⟨[1, 2], 1, by decide⟩ else if p = ⟨0, 1⟩ then some .empty else none

theorem represented_twoStreams : Represented twoStreams twoFiles := by
  intro p f found
  rw [twoFiles] at found
  split at found
  next first =>
    cases found
    exact ⟨_, by rw [first]; rfl, rfl, rfl⟩
  · split at found
    next second =>
      cases found
      exact ⟨_, by rw [second]; rfl, rfl, rfl⟩
    · cases found

/-- A position before the current one is an offset that wraps. -/
def twoStreamCalls : List (FmuSignalVectorIndex × StreamCall) :=
  [(⟨0, 0⟩, .append [5]), (⟨0, 1⟩, .write [0, 9]), (⟨0, 0⟩, .seek (2 ^ 64 - 1) .cur),
    (⟨0, 0⟩, .read .update), (⟨0, 1⟩, .eof)]

theorem streamRun_refines_twoStreams :
    Represented (streamRun greetingLib twoStreams twoStreamCalls).1
        (fileRun twoFiles twoStreamCalls).1 ∧
      List.Forall₂ Matches (streamRun greetingLib twoStreams twoStreamCalls).2
        (fileRun twoFiles twoStreamCalls).2 ∧
      (∀ p, (fileRun twoFiles twoStreamCalls).1 p = (twoFiles p).map
        ((callsFor p twoStreamCalls).foldl fun f call => (fileCall f call).1)) ∧
      ∀ p, (∀ entry ∈ twoStreamCalls, entry.1 ≠ p) →
        (streamRun greetingLib twoStreams twoStreamCalls).1.getBinary p =
        twoStreams.getBinary p := by
  refine streamRun_refines represented_twoStreams ⟨?_, ?_, ?_, ?_, ?_, trivial⟩
  · rintro f ⟨⟩
    decide
  · rintro f ⟨⟩
    decide
  · rintro f ⟨⟩
    decide
  · rintro f ⟨⟩
    decide
  · rintro f ⟨⟩
    decide

/-- Everything is read from the start, and the streams are at their ends. -/
example : (streamRun greetingLib twoStreams twoStreamCalls).2.map Prod.snd =
    [⟨[], 0⟩, ⟨[], 2⟩, ⟨[], 0⟩, ⟨[1, 2, 5], 3⟩, ⟨[], 1⟩] := by
  decide

end DseFmi.Fmu
