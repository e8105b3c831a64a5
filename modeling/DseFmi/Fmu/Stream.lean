import DseFmi.Fmu.Binary

/-!
# The stream of a binary signal

A codec reads and writes its signal through a stream. The stream keeps the position; the bytes
and their number are those of the signal, which the setters of the FMU change as well.
-/

namespace DseFmi.Fmu

/-- Whether reading moves the position. -/
inductive NCodecPos where
  | nc
  | update
  deriving DecidableEq, Repr

/-- What a call returns: the data it refers to and a status. -/
structure StreamResult where
  data : List UInt8
  status : Int
  deriving DecidableEq, Repr

def streamRead (s : BinarySignal) (posOp : NCodecPos) : BinarySignal × StreamResult :=
  match s.ncodec, s.buffer.binary with
  | none, _ => (s, ⟨[], -enostr⟩)
  | some _, none => (s, ⟨[], 0⟩)
  | some pos, some buffer =>
      if pos ≥ s.buffer.length then (s, ⟨[], 0⟩)
      else
        let len := s.buffer.length - pos
        let data := (buffer.drop pos).take len
        match posOp with
        | .update => ({ s with ncodec := some s.buffer.length }, ⟨data, len⟩)
        | .nc => (s, ⟨data, len⟩)

def Buffer.truncate (b : Buffer) (pos : Nat) : Buffer where
  binary := b.binary
  length := min pos b.length
  length_le := (Nat.min_le_right _ _).trans b.length_le

def streamWrite (lib : CLib) (s : BinarySignal) (data : List UInt8) : BinarySignal × StreamResult :=
  match s.ncodec with
  | none => (s, ⟨[], -enostr⟩)
  | some pos =>
      let pos := if pos > s.buffer.length then s.buffer.length else pos
      let buffer := lib.dseBufferAppend (s.buffer.truncate pos) data
      ({ s with buffer, ncodec := some ((pos + data.length) % 2 ^ 32) }, ⟨[], data.length⟩)

def streamTell (s : BinarySignal) : StreamResult :=
  match s.ncodec with
  | none => ⟨[], -enostr⟩
  | some pos => ⟨[], pos⟩

def streamEof (s : BinarySignal) : StreamResult :=
  match s.ncodec with
  | none => ⟨[], 1⟩
  | some pos => if pos < s.buffer.length then ⟨[], 0⟩ else ⟨[], 1⟩

/-- What happens to a signal: calls of its stream, and what a setter appends. -/
inductive StreamCall where
  | read (posOp : NCodecPos)
  | write (data : List UInt8)
  | seek (pos : Nat) (op : NCodecSeek)
  | tell
  | eof
  | append (data : List UInt8)
  deriving DecidableEq, Repr

def StreamCall.run (lib : CLib) (s : BinarySignal) : StreamCall → BinarySignal × StreamResult
  | .read posOp => streamRead s posOp
  | .write data => streamWrite lib s data
  | .seek pos op => ((streamSeek s pos op).1, ⟨[], (streamSeek s pos op).2⟩)
  | .tell => (s, streamTell s)
  | .eof => (s, streamEof s)
  | .append data => (lib.append data s, ⟨[], 0⟩)

/-- A call for the signal that an index leads to. -/
def runCall (lib : CLib) (fmu : FmuInstanceData) (p : FmuSignalVectorIndex) (call : StreamCall) :
    FmuInstanceData × StreamResult :=
  (fmu.modifyBinary p fun s => (call.run lib s).1,
    ((fmu.getBinary p).map fun s => (call.run lib s).2).getD ⟨[], -enostr⟩)

def streamRun (lib : CLib) :
    FmuInstanceData → List (FmuSignalVectorIndex × StreamCall) →
      FmuInstanceData × List (FmuSignalVectorIndex × StreamResult)
  | fmu, [] => (fmu, [])
  | fmu, (p, call) :: calls =>
      let (fmu, result) := runCall lib fmu p call
      let (fmu, results) := streamRun lib fmu calls
      (fmu, (p, result) :: results)

end DseFmi.Fmu
