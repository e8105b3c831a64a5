import DseFmi.Fmu.Period
import DseFmi.Fmu.Stream

/-!
# Texts that are not encoded

Without an encoding the getter copies the buffer up to the next zero, which need not be behind
the bytes in use. What stands there is what was written there last, by any of the contents
before a reset.
-/

namespace DseFmi.Fmu

open DseFmi.Library

inductive SignalEvent where
  | stream (call : StreamCall)
  | reset
  deriving DecidableEq, Repr

def SignalEvent.run (lib : CLib) (s : BinarySignal) : SignalEvent → BinarySignal
  | .stream call => (call.run lib s).1
  | .reset => s.reset

def signalAfter (lib : CLib) (s : BinarySignal) (history : List SignalEvent) : BinarySignal :=
  history.foldl (SignalEvent.run lib) s

/-- All bytes of a buffer, those behind the content as well. -/
def Buffer.memory (b : Buffer) : List UInt8 := b.binary.getD []

/-- Appending leaves the bytes behind the new content as they were. -/
def KeepsRest (lib : CLib) : Prop :=
  ∀ (b : Buffer) (data : List UInt8) (i : Nat) (x : UInt8), b.length + data.length ≤ i →
    b.memory[i]? = some x → (lib.dseBufferAppend b data).memory[i]? = some x

/-- The library with a buffer that holds nothing but what was written. -/
def CLib.exact (lib : CLib) : CLib :=
  { lib with dseBufferAppend := Buffer.append, content_append := Buffer.content_append }

/-- The byte that was written last at a position, by any content of the history. -/
def lastWritten (lib : CLib) (s : BinarySignal) (history : List SignalEvent) (i : Nat) :
    Option UInt8 :=
  (signalAfter lib.exact s history).buffer.memory[i]?

/-- A returned string is a text; the empty one is also returned as `NULL`. -/
def StringValue.Is : StringValue → List UInt8 → Prop
  | .null, w => w = []
  | .text s, w => s.bytes = w
  | .overread, _ => False

/-- A buffer has the bytes of another one, and perhaps more behind them. -/
structure Buffer.Covers (b : Buffer) (c : Buffer) : Prop where
  length : b.length = c.length
  memory : ∀ (i : Nat) (x : UInt8), c.memory[i]? = some x → b.memory[i]? = some x

variable {lib : CLib} {b c : Buffer}

theorem Buffer.getElem?_content (b : Buffer) (i : Nat) :
    b.content[i]? = if i < b.length then b.memory[i]? else none := List.getElem?_take

theorem Buffer.Covers.content (covers : b.Covers c) : b.content = c.content := by
  apply List.ext_getElem?
  intro i
  rw [getElem?_content, getElem?_content, covers.length]
  split
  next inside =>
    have there : i < c.memory.length := inside.trans_le c.length_le
    exact (covers.memory i _ (List.getElem?_eq_getElem there)).trans
      (List.getElem?_eq_getElem there).symm
  · rfl

theorem length_append (lib : CLib) (b : Buffer) (data : List UInt8) :
    (lib.dseBufferAppend b data).length = b.length + data.length := by
  rw [← Buffer.length_content, lib.content_append, List.length_append, Buffer.length_content]

theorem Buffer.memory_append (b : Buffer) (data : List UInt8) :
    (b.append data).memory = b.content ++ data ++ b.memory.drop (b.length + data.length) := rfl

theorem Buffer.Covers.append (covers : b.Covers c) (keeps : KeepsRest lib) (data : List UInt8) :
    (lib.dseBufferAppend b data).Covers (c.append data) := by
  constructor
  · rw [length_append, covers.length]
    rfl
  · intro i x found
    rw [Buffer.memory_append] at found
    have size : (c.content ++ data).length = c.length + data.length := by simp
    by_cases inside : i < c.length + data.length
    · rw [List.getElem?_append_left (by rwa [size]), ← covers.content, ← lib.content_append,
        getElem?_content, if_pos (by rwa [length_append, covers.length])] at found
      exact found
    · have behind := Nat.not_lt.mp inside
      rw [List.getElem?_append_right (by rwa [size]), size, List.getElem?_drop,
        Nat.add_sub_cancel' behind] at found
      exact keeps b data i x (covers.length ▸ behind) (covers.memory i x found)

theorem Buffer.Covers.truncate (covers : b.Covers c) (pos : Nat) :
    (b.truncate pos).Covers (c.truncate pos) :=
  ⟨congrArg (min pos) covers.length, covers.memory⟩

theorem Buffer.Covers.reset (covers : b.Covers c) : b.reset.Covers c.reset :=
  ⟨rfl, covers.memory⟩

/-- Two signals that differ in the bytes behind the content at most. -/
structure CoversSignal (s t : BinarySignal) : Prop where
  buffer : s.buffer.Covers t.buffer
  ncodec : s.ncodec = t.ncodec

variable {s t : BinarySignal}

/-- Reading moves the position and changes nothing else. -/
theorem streamRead_eq (s : BinarySignal) (posOp : NCodecPos) :
    (streamRead s posOp).1 =
      { s with ncodec := s.ncodec.map fun pos =>
          if posOp = .update ∧ pos < s.buffer.length then s.buffer.length else pos } := by
  obtain ⟨buffer, mimeType, ncodec⟩ := s
  unfold streamRead
  cases ncodec with
  | none => rfl
  | some pos =>
      cases stored : buffer.binary with
      | none =>
          have empty : buffer.length = 0 := by
            have bounded := buffer.length_le
            rw [stored] at bounded
            exact Nat.le_zero.mp bounded
          simp [empty]
      | some data =>
          dsimp only
          split
          next atEnd => simp [Nat.not_lt.mpr atEnd]
          next inside => cases posOp <;> simp [Nat.not_le.mp inside]

theorem CoversSignal.seek (covers : CoversSignal s t) (pos : Nat) (op : NCodecSeek) :
    CoversSignal (streamSeek s pos op).1 (streamSeek t pos op).1 := by
  unfold streamSeek
  rw [covers.ncodec]
  cases t.ncodec with
  | none => exact covers
  | some cur =>
      have seekTo (pos : Nat) : CoversSignal (s.seekTo pos).1 (t.seekTo pos).1 := by
        refine ⟨covers.buffer, ?_⟩
        simp only [BinarySignal.seekTo, covers.buffer.length]
      cases op with
      | set => exact seekTo pos
      | cur => exact seekTo _
      | atEnd =>
          dsimp only
          rw [covers.buffer.length]
          exact seekTo _
      | reset => exact ⟨covers.buffer.reset, rfl⟩
      | other => exact covers

theorem CoversSignal.write (covers : CoversSignal s t) (keeps : KeepsRest lib)
    (data : List UInt8) :
    CoversSignal (streamWrite lib s data).1 (streamWrite lib.exact t data).1 := by
  unfold streamWrite
  rw [covers.ncodec, covers.buffer.length]
  cases t.ncodec with
  | none => exact covers
  | some pos => exact ⟨(covers.buffer.truncate _).append keeps data, rfl⟩

theorem CoversSignal.reset (covers : CoversSignal s t) : CoversSignal s.reset t.reset := by
  unfold BinarySignal.reset
  rw [covers.ncodec]
  split
  · exact covers.seek 0 .reset
  · exact ⟨covers.buffer.reset, rfl⟩

/-- What an event does is the same up to bytes that were never written. -/
theorem CoversSignal.event (covers : CoversSignal s t) (keeps : KeepsRest lib)
    (event : SignalEvent) : CoversSignal (event.run lib s) (event.run lib.exact t) := by
  cases event with
  | reset => exact covers.reset
  | stream call =>
      cases call with
      | read posOp =>
          simp only [SignalEvent.run, StreamCall.run, streamRead_eq]
          refine ⟨covers.buffer, ?_⟩
          rw [covers.ncodec, covers.buffer.length]
      | write data => exact covers.write keeps data
      | seek pos op => exact covers.seek pos op
      | tell => exact covers
      | eof => exact covers
      | append data => exact ⟨covers.buffer.append keeps data, covers.ncodec⟩

theorem CoversSignal.history (covers : CoversSignal s t) (keeps : KeepsRest lib)
    (history : List SignalEvent) :
    CoversSignal (signalAfter lib s history) (signalAfter lib.exact t history) := by
  induction history generalizing s t with
  | nil => exact covers
  | cons event history ih => exact ih (covers.event keeps event)

theorem strdup_is_iff {data w : List UInt8} (content : data.take w.length = w) (plain : 0 ∉ w) :
    (strdup data).Is w ↔ data[w.length]? = some 0 := by
  have all : ∀ x ∈ w, decide (x ≠ 0) = true := by
    intro x member
    rw [decide_eq_true_iff]
    rintro rfl
    exact plain member
  have parts : data = w ++ data.drop w.length := by
    conv_lhs => rw [← List.take_append_drop w.length data, content]
  have next : data[w.length]? = (data.drop w.length).head? := by
    rw [List.head?_drop]
  rw [next]
  generalize data.drop w.length = behind at parts
  rw [parts, strdup]
  cases behind with
  | nil =>
      rw [if_neg (by simpa using plain)]
      exact ⟨False.elim, fun none => by cases none⟩
  | cons x behind =>
      rw [List.head?_cons, Option.some.injEq]
      by_cases zero : x = 0
      · rw [if_pos (by simp [zero])]
        refine ⟨fun _ => zero, fun _ => ?_⟩
        show (w ++ x :: behind).takeWhile _ = w
        rw [List.takeWhile_append_of_pos all, zero]
        simp
      · refine ⟨?_, fun same => absurd same zero⟩
        intro same
        split at same
        · have text : (w ++ x :: behind).takeWhile (· ≠ 0) = w := same
          rw [List.takeWhile_append_of_pos all, List.takeWhile_cons_of_pos (by simpa using zero)]
            at text
          have length := congrArg List.length text
          simp at length
        · exact same.elim

/-- The getter returns the content of a signal exactly when the byte behind it is 0. This is
the byte that was written there last, if there was one. -/
theorem fmi2GetString_text_iff (keeps : KeepsRest lib) {fmu : FmuInstanceData} {vr : UInt32}
    {p : FmuSignalVectorIndex} (start : BinarySignal)
    (history : List SignalEvent) (tx : fmu.binaryTx.lookup (vrIdx vr) = some p)
    (unencoded : fmu.encodeFunc.lookup (vrIdx vr) = none)
    (stored : fmu.getBinary p = some (signalAfter lib start history)) {w : List UInt8}
    (content : (signalAfter lib start history).buffer.content = w) (plain : 0 ∉ w)
    {vrs : List UInt32} {i : Nat} (listed : vrs[i]? = some vr) :
    (∃ value, (fmi2GetString lib fmu vrs)[i]? = some value ∧
      (value.Is w ↔ w = [] ∨
        (signalAfter lib start history).buffer.memory[w.length]? = some 0)) ∧
    ∀ x, lastWritten lib start history w.length = some x →
      (signalAfter lib start history).buffer.memory[w.length]? = some x := by
  have covers : CoversSignal start start := ⟨⟨rfl, fun _ _ found => found⟩, rfl⟩
  refine ⟨⟨getString lib fmu vr, ?_, ?_⟩, (covers.history keeps history).buffer.memory w.length⟩
  · rw [fmi2GetString, List.getElem?_map, listed]
    rfl
  · generalize signalAfter lib start history = s at stored content
    have length : s.buffer.length = w.length := by rw [← content, Buffer.length_content]
    rw [getString, tx, Option.bind_some, stored]
    dsimp only
    cases buffer : s.buffer.binary with
    | none =>
        have empty : w = [] := by
          rw [← content, Buffer.content, buffer]
          exact List.take_nil
        exact ⟨fun _ => .inl empty, fun _ => empty⟩
    | some data =>
        dsimp only
        by_cases empty : s.buffer.length = 0
        · rw [if_pos empty]
          have none : w = [] := List.length_eq_zero_iff.mp (length ▸ empty)
          exact ⟨fun _ => .inl none, fun _ => none⟩
        · rw [if_neg empty, unencoded]
          have nonempty : w ≠ [] := by
            rintro rfl
            exact empty length
          have memory : s.buffer.memory = data := by rw [Buffer.memory, buffer]; rfl
          rw [or_iff_right nonempty, memory]
          apply strdup_is_iff _ plain
          rw [← length, ← memory]
          exact content

/-- The signal of an output that is not encoded, after a history. -/
def plainOutput (history : List SignalEvent) : FmuInstanceData :=
  { FmuInstanceData.null with
    binaryTx := (∅ : HashMap FmuSignalVectorIndex).insert "2" ⟨0, 0⟩
    data := [⟨1, [some "network"], none,
      some [signalAfter greetingLib ⟨.null, none, none⟩ history]⟩] }

def shorterText : List SignalEvent :=
  [.stream (.append [97, 98, 99, 0]), .reset, .stream (.append [120])]

theorem keepsRest_greetingLib : KeepsRest greetingLib := by
  intro b data i x behind found
  show (b.append data).memory[i]? = some x
  have size : (b.content ++ data).length = b.length + data.length := by simp
  rw [Buffer.memory_append, List.getElem?_append_right (by rwa [size]), size, List.getElem?_drop,
    Nat.add_sub_cancel' behind]
  exact found

theorem fmi2GetString_text_iff_shorter :
    (∃ value, (fmi2GetString greetingLib (plainOutput shorterText) [2])[0]? = some value ∧
      (value.Is [120] ↔ ([120] : List UInt8) = [] ∨
        (signalAfter greetingLib ⟨.null, none, none⟩ shorterText).buffer.memory[1]? = some 0)) ∧
    ∀ x, lastWritten greetingLib ⟨.null, none, none⟩ shorterText 1 = some x →
      (signalAfter greetingLib ⟨.null, none, none⟩ shorterText).buffer.memory[1]? = some x := by
  have tx : (plainOutput shorterText).binaryTx.lookup (vrIdx 2) = some ⟨0, 0⟩ := by decide
  have content : (signalAfter greetingLib ⟨.null, none, none⟩ shorterText).buffer.content =
      [120] := by decide
  have listed : ([2] : List UInt32)[0]? = some 2 := by decide
  exact fmi2GetString_text_iff keepsRest_greetingLib _ shorterText tx rfl rfl content (by decide)
    listed

/-- The rest of the longer text is returned behind the shorter one. -/
theorem fmi2GetString_stale_text :
    (signalAfter greetingLib ⟨.null, none, none⟩ shorterText).buffer.content = [120] ∧
      fmi2GetString greetingLib (plainOutput shorterText) [2] =
        [.text ⟨[120, 98, 99], by decide⟩] := by
  decide

end DseFmi.Fmu
