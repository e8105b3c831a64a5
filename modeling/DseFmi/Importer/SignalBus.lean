import Mathlib.Data.List.Basic
import Mathlib.Tactic.Common
import DseFmi.Library.ByteFile

/-!
# The signal bus

The importer connects the binary variables of an FMU by a network signal, the codec of which
writes to a stream. What is pushed is appended to the stream; what is pulled is the whole
stream, which stays there until the signals are truncated.
-/

namespace DseFmi.Importer

open DseFmi.Library

/-- `nc` is the stream of the codec, if there is one for the MIME type. -/
structure NetworkSignal where
  name : String
  mimeType : String
  nc : Option (ByteFile UInt8)

/-- What the signal bus uses of the codecs: whether there is one for a MIME type, and the bytes
that a frame adds to the stream. -/
structure NCodec where
  create : String → Bool
  canFrame : String → Int → List UInt8 → List UInt8

variable (ncodec : NCodec)

/-- A signal is created at its first use, for the MIME type of that use. -/
def getNetworkSignal (signals : List NetworkSignal) (name mimeType : String) :
    List NetworkSignal :=
  if signals.any fun ns => ns.name = name then signals
  else signals ++ [⟨name, mimeType, if ncodec.create mimeType then some .empty else none⟩]

def changeStream (signals : List NetworkSignal) (name : String)
    (change : ByteFile UInt8 → ByteFile UInt8) : List NetworkSignal :=
  signals.map fun ns => if ns.name = name then { ns with nc := ns.nc.map change } else ns

def seekEnd (nc : ByteFile UInt8) : ByteFile UInt8 := nc.seek nc.content.length

def networkInjectFrame (signals : List NetworkSignal) (name mimeType : String) (id : Int)
    (data : List UInt8) : List NetworkSignal :=
  changeStream (getNetworkSignal ncodec signals name mimeType) name fun nc =>
    (seekEnd nc).write (ncodec.canFrame mimeType id data)

def networkPush (signalBusEnabled : Bool) (signals : List NetworkSignal) (name mimeType : String)
    (buffer : List UInt8) : List NetworkSignal :=
  if buffer = [] then signals
  else
    let signals := getNetworkSignal ncodec signals name mimeType
    if signalBusEnabled then
      changeStream signals name fun nc => (seekEnd nc).write buffer
    else signals

/-- Reading the stream does not move its position. -/
def networkPull (signals : List NetworkSignal) (name mimeType : String) :
    List NetworkSignal × List UInt8 :=
  let signals :=
    changeStream (getNetworkSignal ncodec signals name mimeType) name fun nc => nc.seek 0
  (signals,
    (((signals.find? fun ns => ns.name = name).bind NetworkSignal.nc).map ByteFile.rest).getD [])

def networkTruncate (signals : List NetworkSignal) : List NetworkSignal :=
  signals.map fun ns => { ns with nc := ns.nc.map fun _ => .empty }

/-- There is no other signal than the named one, and its stream holds the content. A signal that
has not been created yet holds nothing. -/
inductive IsBus (name : String) : List NetworkSignal → List UInt8 → Prop where
  | absent : IsBus name [] []
  | created (mimeType : String) (nc : ByteFile UInt8) :
      IsBus name [⟨name, mimeType, some nc⟩] nc.content

variable {ncodec} {name mimeType : String} {signals : List NetworkSignal} {content : List UInt8}

theorem IsBus.getNetworkSignal (bus : IsBus name signals content)
    (created : ncodec.create mimeType = true) :
    ∃ mime nc, getNetworkSignal ncodec signals name mimeType = [⟨name, mime, some nc⟩] ∧
      nc.content = content := by
  cases bus with
  | absent => exact ⟨mimeType, .empty, by simp [Importer.getNetworkSignal, created], rfl⟩
  | created mime nc => exact ⟨mime, nc, by simp [Importer.getNetworkSignal], rfl⟩

theorem content_write_seekEnd (nc : ByteFile UInt8) (data : List UInt8) :
    ((seekEnd nc).write data).content = nc.content ++ data := by
  simp [seekEnd, ByteFile.seek, ByteFile.write]

theorem IsBus.networkPush (bus : IsBus name signals content)
    (created : ncodec.create mimeType = true) (buffer : List UInt8) :
    IsBus name (networkPush ncodec true signals name mimeType buffer) (content ++ buffer) := by
  unfold Importer.networkPush
  by_cases empty : buffer = []
  · rw [if_pos empty, empty, List.append_nil]
    exact bus
  · obtain ⟨mime, nc, one, rfl⟩ := bus.getNetworkSignal created
    rw [if_neg empty, one, if_pos rfl, ← content_write_seekEnd]
    simpa [changeStream] using IsBus.created mime ((seekEnd nc).write buffer)

theorem IsBus.networkPull (bus : IsBus name signals content)
    (created : ncodec.create mimeType = true) :
    IsBus name (networkPull ncodec signals name mimeType).1 content ∧
      (networkPull ncodec signals name mimeType).2 = content := by
  obtain ⟨mime, nc, one, rfl⟩ := bus.getNetworkSignal created
  have start : (nc.seek 0).rest = nc.content := by simp [ByteFile.rest, ByteFile.seek]
  have same : (nc.seek 0).content = nc.content := rfl
  rw [Importer.networkPull, one]
  constructor
  · simpa [changeStream, same] using IsBus.created mime (nc.seek 0)
  · simpa [changeStream] using start

theorem IsBus.networkTruncate (bus : IsBus name signals content) :
    IsBus name (networkTruncate signals) [] := by
  cases bus with
  | absent => exact .absent
  | created mime nc => exact .created mime .empty

end DseFmi.Importer
