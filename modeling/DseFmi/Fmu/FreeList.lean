import DseFmi.Fmu.BinaryFmi3
import DseFmi.Fmu.VarTableRun
import DseFmi.Library.Heap

/-!
# The lazy free list

The values of binary variables are returned in memory of their own. The instance keeps it on
a list, under keys that count, and frees it with the next call that returns values or with the
instance. Until then the importer may read it.
-/

namespace DseFmi.Fmu

open DseFmi.Library

/-- The memory that an instance allocates for texts: what it returns, and what it decodes. -/
inductive HeapText where
  | string (value : StringValue)
  | binary (value : Fmi3Binary)
  | decoded (data : List UInt8)
  deriving DecidableEq, Repr

def StringValue.heapText : StringValue → Option HeapText
  | .null => none
  | value => some (.string value)

def Fmi3Binary.heapText : Fmi3Binary → Option HeapText
  | .null => none
  | value => some (.binary value)

structure TextHeap where
  fmu : FmuInstanceData
  freeList : HashMap Nat
  heap : Heap HeapText

def TextHeap.listed (o : TextHeap) : List Nat := o.freeList.entries.map Sigma.snd

def TextHeap.clear (o : TextHeap) : Option TextHeap :=
  (o.heap.freeAll o.listed).map fun heap => { o with freeList := ∅, heap }

def TextHeap.freeListKey (keys : KeyLen) (o : TextHeap) : String :=
  printInt keys.hashlistKeyLen (UInt32.ofNat o.freeList.keys.length)

/-- A value is returned in a new block, which is put on the list. -/
def TextHeap.keep (keys : KeyLen) (o : TextHeap) : Option HeapText → TextHeap × Option Nat
  | none => (o, none)
  | some text =>
      let (heap, p) := o.heap.malloc text
      ({ o with heap, freeList := o.freeList.insert (o.freeListKey keys) p }, some p)

def TextHeap.keepAll (keys : KeyLen) : TextHeap → List (Option HeapText) →
    TextHeap × List (Option Nat)
  | o, [] => (o, [])
  | o, value :: values =>
      let (o, p) := o.keep keys value
      let (o, ps) := o.keepAll keys values
      (o, p :: ps)

section Calls

variable (lib : CLib)

/-- The memory of a decoded text is released when the text has been appended. -/
def decodeOnHeap (data : Option (List UInt8)) (heap : Heap HeapText) : Option (Heap HeapText) :=
  match data with
  | none => some heap
  | some data =>
      let (heap, p) := heap.malloc (.decoded data)
      heap.free p

def decodedString (fmu : FmuInstanceData) (vr : UInt32) (value : Option CString) :
    Option (List UInt8) := do
  let value ← value
  let _ ← fmu.binaryRx.lookup (vrIdx vr)
  let df ← fmu.decodeFunc.lookup (vrIdx vr)
  return lib.decode df value

def decodedBinary (fmu : FmuInstanceData) (entry : BinaryEntry) : Option (List UInt8) := do
  let _ ← entry.value.heapText
  let _ ← fmu.binaryRx.lookup (vrIdx entry.valueReference)
  let df ← fmu.decodeFunc.lookup (vrIdx entry.valueReference)
  return lib.decode df entry.value.cString

def TextHeap.setString (o : TextHeap) (entry : UInt32 × Option CString) : Option TextHeap :=
  (decodeOnHeap (decodedString lib o.fmu entry.1 entry.2) o.heap).map fun heap =>
    { o with fmu := Fmu.setString lib o.fmu entry.1 entry.2, heap }

def TextHeap.setBinary (o : TextHeap) (entry : BinaryEntry) : Option TextHeap :=
  (decodeOnHeap (decodedBinary lib o.fmu entry) o.heap).map fun heap =>
    { o with fmu := (setBinaryValue lib o.fmu entry).1, heap }

inductive TextCall where
  | getString (vrs : List UInt32)
  | getBinary (request : List (UInt32 × Nat))
  | setString (request : List (UInt32 × Option CString))
  | setBinary (entries : List BinaryEntry)
  | doStep (step : FmuStep) (currentCommunicationPoint communicationStepSize : Double)

/-- The instance after a call, without the memory. -/
def TextCall.plain (fmu : FmuInstanceData) : TextCall → FmuInstanceData
  | .getString _ | .getBinary _ => fmu
  | .setString request => fmi2SetString lib fmu request
  | .setBinary entries => (fmi3SetBinary lib fmu entries).1
  | .doStep step t h => (fmi2DoStep step fmu t h).1

/-- The values a call returns; none for a call that does not return any. -/
def TextCall.values (fmu : FmuInstanceData) : TextCall → Option (List (Option HeapText))
  | .getString vrs => some ((fmi2GetString lib fmu vrs).map StringValue.heapText)
  | .getBinary request =>
      some ((fmi3GetBinary lib fmu request).map fun value => value.2.heapText)
  | _ => none

def TextCall.run (keys : KeyLen) (o : TextHeap) (call : TextCall) :
    Option (TextHeap × List (Option Nat)) :=
  match call with
  | .getString vrs => o.clear.map fun o =>
      o.keepAll keys ((fmi2GetString lib o.fmu vrs).map StringValue.heapText)
  | .getBinary request => o.clear.map fun o =>
      o.keepAll keys ((fmi3GetBinary lib o.fmu request).map fun value => value.2.heapText)
  | .setString request =>
      (request.foldlM (TextHeap.setString lib)
        { o with fmu := fmuDefaultSignalsReset o.fmu }).map fun o => (o, [])
  | .setBinary entries =>
      (entries.foldlM (TextHeap.setBinary lib)
        { o with fmu := fmuDefaultSignalsReset o.fmu }).map fun o => (o, [])
  | .doStep step t h => some ({ o with fmu := (fmi2DoStep step o.fmu t h).1 }, [])

def runTexts (keys : KeyLen) (o : TextHeap) (calls : List TextCall) : Option TextHeap :=
  calls.foldlM (fun o call => (call.run lib keys o).map Prod.fst) o

/-- The memory left when the instance is freed, and the list destroyed with it. -/
def TextHeap.freeInstance (o : TextHeap) : Option (Heap HeapText) := o.heap.freeAll o.listed

end Calls

/-- The keys count the entries, and the blocks of the list are the only ones on the heap. -/
structure TextHeap.Kept (o : TextHeap) : Prop where
  keys : ∀ k ∈ o.freeList.keys, ∃ n < o.freeList.keys.length, k = Nat.repr n
  owns : o.heap.Owns o.listed

/-- What a call that returns values leaves: its own blocks behind those on the list. -/
structure KeepsValues (o r : TextHeap) (values : List (Option HeapText)) (ps : List (Option Nat)) :
    Prop where
  fmu : r.fmu = o.fmu
  kept : r.Kept
  length : r.freeList.keys.length ≤ o.freeList.keys.length + values.length
  listed : r.listed.Perm (o.listed ++ ps.reduceOption)
  same : ∀ q ∈ o.listed, r.heap.block q = o.heap.block q
  values : ps.map (·.bind r.heap.block) = values

section Kept

variable (keys : KeyLen) {o : TextHeap}

theorem TextHeap.Kept.freeListKey (kept : o.Kept) (small : o.freeList.keys.length < 2 ^ 31) :
    o.freeListKey keys = Nat.repr o.freeList.keys.length ∧ o.freeListKey keys ∉ o.freeList := by
  have count : (UInt32.ofNat o.freeList.keys.length).toNat = o.freeList.keys.length :=
    UInt32.toNat_ofNat_of_lt' (by simpa [UInt32.size] using by omega)
  have key : o.freeListKey keys = Nat.repr o.freeList.keys.length := by
    rw [TextHeap.freeListKey, printInt_of_lt keys.room (by rwa [count]), count]
  refine ⟨key, ?_⟩
  rw [key]
  intro member
  obtain ⟨n, less, same⟩ := kept.keys _ (AList.mem_keys.mpr member)
  exact Nat.lt_irrefl _ (Nat.repr_injective same ▸ less)

theorem TextHeap.Kept.keep (kept : o.Kept) (small : o.freeList.keys.length < 2 ^ 31)
    (value : Option HeapText) :
    KeepsValues o (o.keep keys value).1 [value] [(o.keep keys value).2] := by
  cases value with
  | none =>
      exact ⟨rfl, kept, Nat.le_succ _, by simp [TextHeap.keep, List.reduceOption],
        fun _ _ => rfl, rfl⟩
  | some text =>
      obtain ⟨key, absent⟩ := kept.freeListKey keys small
      have entries : (o.freeList.insert (o.freeListKey keys) (o.heap.malloc text).2).entries =
          ⟨o.freeListKey keys, (o.heap.malloc text).2⟩ :: o.freeList.entries :=
        AList.entries_insert_of_notMem absent
      have names : (o.freeList.insert (o.freeListKey keys) (o.heap.malloc text).2).keys =
          o.freeListKey keys :: o.freeList.keys := by
        rw [AList.keys, entries]
        rfl
      have listed : (o.keep keys (some text)).1.listed = (o.heap.malloc text).2 :: o.listed := by
        rw [TextHeap.listed, TextHeap.keep, entries]
        rfl
      have perm : ((o.heap.malloc text).2 :: o.listed).Perm
          (o.listed ++ [(o.heap.malloc text).2]) := (List.perm_append_singleton _ _).symm
      refine ⟨rfl, ⟨?_, ?_⟩, ?_, ?_, ?_, ?_⟩
      · rw [TextHeap.keep]
        dsimp only
        rw [names]
        intro k member
        cases List.mem_cons.mp member with
        | inl new => exact ⟨_, Nat.lt_succ_self _, new.trans key⟩
        | inr old =>
            obtain ⟨n, less, same⟩ := kept.keys k old
            exact ⟨n, Nat.lt_succ_of_lt less, same⟩
      · rw [listed]
        exact (kept.owns.malloc text).perm perm.symm
      · rw [TextHeap.keep]
        dsimp only
        rw [names]
        rfl
      · rw [listed]
        simpa [TextHeap.keep, List.reduceOption] using perm
      · exact fun q member => kept.owns.block_malloc text member
      · simp [TextHeap.keep]

theorem TextHeap.Kept.keepAll (kept : o.Kept) {values : List (Option HeapText)}
    (small : o.freeList.keys.length + values.length ≤ 2 ^ 31) :
    KeepsValues o (o.keepAll keys values).1 values (o.keepAll keys values).2 := by
  induction values generalizing o with
  | nil => exact ⟨rfl, kept, Nat.le_refl _, by simp [TextHeap.keepAll, List.reduceOption],
      fun _ _ => rfl, rfl⟩
  | cons value values ih =>
      rw [List.length_cons] at small
      have first := kept.keep keys (by omega) value
      rcases step : o.keep keys value with ⟨r, p⟩
      rw [step] at first
      have count := first.length
      have rest := ih first.kept (by simp at count ⊢; omega)
      rw [TextHeap.keepAll, step]
      dsimp only
      rcases steps : r.keepAll keys values with ⟨t, ps⟩
      rw [steps] at rest
      have old : ∀ q ∈ o.listed, q ∈ r.listed := by
        intro q member
        exact first.listed.mem_iff.mpr (List.mem_append_left _ member)
      refine ⟨rest.fmu.trans first.fmu, rest.kept, ?_, ?_, ?_, ?_⟩
      · have := rest.length
        simp at count this ⊢
        omega
      · have appended : (r.listed ++ ps.reduceOption).Perm
            ((o.listed ++ [p].reduceOption) ++ ps.reduceOption) :=
          first.listed.append_right ps.reduceOption
        rw [List.append_assoc, ← List.reduceOption_append] at appended
        exact rest.listed.trans appended
      · intro q member
        rw [rest.same q (old q member), first.same q member]
      · have head : p.bind r.heap.block = value := List.head_eq_of_cons_eq first.values
        have kept_ : p.bind t.heap.block = p.bind r.heap.block := by
          cases p with
          | none => rfl
          | some q =>
              apply rest.same
              apply first.listed.mem_iff.mpr
              simp [List.reduceOption]
        rw [List.map_cons, rest.values, kept_, head]

/-- Nothing is left of the texts that were returned before. -/
theorem TextHeap.Kept.clear (kept : o.Kept) :
    ∃ r, o.clear = some r ∧ r.Kept ∧ r.fmu = o.fmu ∧ r.listed = [] ∧ r.freeList.keys = [] := by
  have owns : o.heap.Owns (o.listed ++ []) := by simpa using kept.owns
  obtain ⟨heap, freed, owned, _⟩ := owns.freeAll
  refine ⟨_, congrArg (Option.map _) freed, ⟨?_, owned⟩, rfl, rfl, rfl⟩
  intro k member
  cases member

/-- The texts that were returned stay as they are, and there are no other blocks. -/
structure SameTexts (o r : TextHeap) : Prop where
  freeList : r.freeList = o.freeList
  owns : r.heap.Owns o.listed
  same : ∀ q ∈ o.listed, r.heap.block q = o.heap.block q

variable {r t : TextHeap}

theorem SameTexts.listed (same : SameTexts o r) : r.listed = o.listed := by
  rw [TextHeap.listed, same.freeList]
  rfl

theorem SameTexts.trans (first : SameTexts o r) (second : SameTexts r t) : SameTexts o t := by
  refine ⟨second.freeList.trans first.freeList, first.listed ▸ second.owns, ?_⟩
  intro q member
  rw [second.same q (first.listed.symm ▸ member), first.same q member]

theorem SameTexts.kept (same : SameTexts o r) (kept : o.Kept) : r.Kept := by
  refine ⟨?_, same.listed.symm ▸ same.owns⟩
  rw [same.freeList]
  exact kept.keys

theorem decodeOnHeap_same {heap : Heap HeapText} {ps : List Nat} (owns : heap.Owns ps)
    (data : Option (List UInt8)) :
    ∃ g, decodeOnHeap data heap = some g ∧ g.Owns ps ∧ ∀ q ∈ ps, g.block q = heap.block q := by
  cases data with
  | none => exact ⟨heap, rfl, owns, fun _ _ => rfl⟩
  | some data => exact owns.malloc_free (.decoded data)

/-- Rounds that decode on the heap change nothing but the instance. -/
theorem foldlM_sameTexts {β : Type} (round : TextHeap → β → Option TextHeap)
    (plain : FmuInstanceData → β → FmuInstanceData)
    (kept : o.Kept) (entries : List β)
    (each : ∀ b ∈ entries, ∀ o, o.Kept →
      ∃ r, round o b = some r ∧ r.fmu = plain o.fmu b ∧ SameTexts o r) :
    ∃ r, entries.foldlM round o = some r ∧ r.fmu = entries.foldl plain o.fmu ∧
      SameTexts o r := by
  induction entries generalizing o with
  | nil => exact ⟨o, rfl, rfl, rfl, kept.owns, fun _ _ => rfl⟩
  | cons entry entries ih =>
      obtain ⟨r, here, changed, same⟩ := each entry List.mem_cons_self o kept
      obtain ⟨t, rest, finally_, later⟩ :=
        ih (same.kept kept) fun other member => each other (List.mem_cons_of_mem entry member)
      refine ⟨t, ?_, ?_, same.trans later⟩
      · rw [List.foldlM_cons, here]
        exact rest
      · rw [finally_, changed]
        rfl

variable (lib : CLib)

theorem setString_same (kept : o.Kept) (entry : UInt32 × Option CString) :
    ∃ r, o.setString lib entry = some r ∧
      r.fmu = Fmu.setString lib o.fmu entry.1 entry.2 ∧ SameTexts o r := by
  obtain ⟨g, decoded, owns, same⟩ :=
    decodeOnHeap_same kept.owns (decodedString lib o.fmu entry.1 entry.2)
  refine ⟨_, congrArg (Option.map _) decoded, rfl, rfl, owns, same⟩

theorem setBinary_same (kept : o.Kept) (entry : BinaryEntry) :
    ∃ r, o.setBinary lib entry = some r ∧
      r.fmu = (setBinaryValue lib o.fmu entry).1 ∧ SameTexts o r := by
  obtain ⟨g, decoded, owns, same⟩ :=
    decodeOnHeap_same kept.owns (decodedBinary lib o.fmu entry)
  refine ⟨_, congrArg (Option.map _) decoded, rfl, rfl, owns, same⟩

theorem setBinaryValues_eq_foldl (fmu : FmuInstanceData) (entries : List BinaryEntry) :
    (setBinaryValues lib fmu entries).1 =
      entries.foldl (fun fmu entry => (setBinaryValue lib fmu entry).1) fmu := by
  induction entries generalizing fmu with
  | nil => rfl
  | cons entry entries ih => exact ih _

def TextCall.references : TextCall → Nat
  | .getString vrs => vrs.length
  | .getBinary request => request.length
  | .setString request => request.length
  | .setBinary entries => entries.length
  | .doStep _ _ _ => 0

/-- A call that returns no texts leaves those that were returned. -/
theorem TextCall.run_same (kept : o.Kept) {call : TextCall}
    (silent : call.values lib o.fmu = none) :
    ∃ r, call.run lib keys o = some (r, []) ∧ r.fmu = call.plain lib o.fmu ∧ SameTexts o r := by
  cases call with
  | getString vrs => cases silent
  | getBinary request => cases silent
  | setString request =>
      have reset : ({ o with fmu := fmuDefaultSignalsReset o.fmu } : TextHeap).Kept :=
        ⟨kept.keys, kept.owns⟩
      obtain ⟨r, ran, changed, same⟩ := foldlM_sameTexts _
        (fun fmu entry => Fmu.setString lib fmu entry.1 entry.2) reset request
        fun entry _ _ held => setString_same lib held entry
      exact ⟨r, congrArg (Option.map _) ran, changed, same.freeList, same.owns, same.same⟩
  | setBinary entries =>
      have reset : ({ o with fmu := fmuDefaultSignalsReset o.fmu } : TextHeap).Kept :=
        ⟨kept.keys, kept.owns⟩
      obtain ⟨r, ran, changed, same⟩ := foldlM_sameTexts _
        (fun fmu entry => (setBinaryValue lib fmu entry).1) reset entries
        fun entry _ _ held => setBinary_same lib held entry
      refine ⟨r, congrArg (Option.map _) ran, ?_, same.freeList, same.owns, same.same⟩
      rw [changed]
      exact (setBinaryValues_eq_foldl lib _ entries).symm
  | doStep step t h => exact ⟨_, rfl, rfl, rfl, kept.owns, fun _ _ => rfl⟩

/-- A call that returns texts returns them in the only blocks that are left. -/
theorem TextCall.run_values (kept : o.Kept) {call : TextCall} {values : List (Option HeapText)}
    (returned : call.values lib o.fmu = some values) (small : call.references < 2 ^ 31) :
    ∃ r ps, call.run lib keys o = some (r, ps) ∧ r.fmu = o.fmu ∧ r.Kept ∧
      r.listed.Perm ps.reduceOption ∧ ps.map (·.bind r.heap.block) = values := by
  obtain ⟨q, cleared, empty, fmu, listed, names⟩ := kept.clear
  have count : values.length = call.references := by
    cases call <;> cases returned <;> simp [TextCall.references, fmi2GetString, fmi3GetBinary]
  have keeps := empty.keepAll keys (show q.freeList.keys.length + values.length ≤ 2 ^ 31 by
    simp [names, count]; omega)
  have ran : call.run lib keys o = some (q.keepAll keys values) := by
    cases call <;> cases returned <;> simp [TextCall.run, cleared, fmu]
  refine ⟨_, _, ran, keeps.fmu.trans fmu, keeps.kept, ?_, keeps.values⟩
  simpa [listed] using keeps.listed

/-- The instance after some calls, without the memory. -/
def plainRun (fmu : FmuInstanceData) (calls : List TextCall) : FmuInstanceData :=
  calls.foldl (TextCall.plain lib) fmu

theorem TextCall.plain_of_values {fmu : FmuInstanceData} {call : TextCall}
    {values : List (Option HeapText)} (returned : call.values lib fmu = some values) :
    call.plain lib fmu = fmu := by
  cases call <;> first | rfl | cases returned

/-- A run never frees memory that is not allocated, and the list holds all that is. -/
theorem runTexts_kept (kept : o.Kept) {calls : List TextCall}
    (small : ∀ call ∈ calls, call.references < 2 ^ 31) :
    ∃ r, runTexts lib keys o calls = some r ∧ r.fmu = plainRun lib o.fmu calls ∧ r.Kept := by
  induction calls generalizing o with
  | nil => exact ⟨o, rfl, rfl, kept⟩
  | cons call calls ih =>
      have step : ∃ r ps, call.run lib keys o = some (r, ps) ∧ r.fmu = call.plain lib o.fmu ∧
          r.Kept := by
        cases returned : call.values lib o.fmu with
        | none =>
            obtain ⟨r, ran, changed, same⟩ := TextCall.run_same keys lib kept returned
            exact ⟨r, _, ran, changed, same.kept kept⟩
        | some values =>
            obtain ⟨r, ps, ran, changed, held, _⟩ :=
              TextCall.run_values keys lib kept returned (small call List.mem_cons_self)
            rw [TextCall.plain_of_values lib returned]
            exact ⟨r, ps, ran, changed, held⟩
      obtain ⟨r, ps, ran, changed, held⟩ := step
      obtain ⟨t, rest, finally_, last⟩ :=
        ih held fun other member => small other (List.mem_cons_of_mem call member)
      refine ⟨t, ?_, ?_, last⟩
      · rw [runTexts, List.foldlM_cons, ran]
        exact rest
      · rw [finally_, changed]
        rfl

/-- Calls that return no texts leave those that were returned. -/
theorem runTexts_same (kept : o.Kept) {calls : List TextCall}
    (silent : ∀ call ∈ calls, ∀ fmu, call.values lib fmu = none) :
    ∃ r, runTexts lib keys o calls = some r ∧ SameTexts o r := by
  obtain ⟨r, ran, _, same⟩ := foldlM_sameTexts
    (fun o call => (TextCall.run lib keys o call).map Prod.fst) (TextCall.plain lib) kept calls
    fun call member o held => by
      obtain ⟨r, ran, changed, same⟩ :=
        TextCall.run_same keys lib held (silent call member o.fmu)
      exact ⟨r, congrArg (Option.map Prod.fst) ran, changed, same⟩
  exact ⟨r, ran, same⟩

/-- The instance as it is created, with nothing on the list or the heap. -/
def TextHeap.start (fmu : FmuInstanceData) : TextHeap := ⟨fmu, ∅, Heap.empty⟩

theorem TextHeap.kept_start (fmu : FmuInstanceData) : (TextHeap.start fmu).Kept := by
  refine ⟨?_, Heap.owns_empty⟩
  intro k member
  cases member

/-- No call frees a block that is not allocated. After the later calls the pointers that the
call has returned lead to its values, in blocks of their own, and these are the only blocks
left; freeing the instance frees them all. -/
def TextsLive (keys : KeyLen) (fmu : FmuInstanceData) (before : List TextCall) (call : TextCall)
    (later : List TextCall) : Prop :=
  ∃ o r ps t, runTexts lib keys (.start fmu) before = some o ∧ o.fmu = plainRun lib fmu before ∧
    call.run lib keys o = some (r, ps) ∧ runTexts lib keys r later = some t ∧
    call.values lib o.fmu = some (ps.map (·.bind t.heap.block)) ∧
    t.heap.Owns ps.reduceOption ∧ ∃ h, t.freeInstance = some h ∧ h.Owns []

variable {lib keys} in
/-- The texts that a call returns can be read until the next call that returns texts, or until
the instance is freed; every text is freed once. -/
theorem runTexts_live {fmu : FmuInstanceData} {before later : List TextCall} {call : TextCall}
    (small : ∀ c ∈ before ++ [call], c.references < 2 ^ 31)
    (returns : ∀ fmu, call.values lib fmu ≠ none)
    (silent : ∀ c ∈ later, ∀ fmu, c.values lib fmu = none) :
    TextsLive lib keys fmu before call later := by
  obtain ⟨o, ran, plain, kept⟩ := runTexts_kept keys lib (TextHeap.kept_start fmu)
    fun c member => small c (List.mem_append_left _ member)
  obtain ⟨values, returned⟩ := Option.ne_none_iff_exists'.mp (returns o.fmu)
  obtain ⟨r, ps, called, _, held, listed, read⟩ := TextCall.run_values keys lib kept
    returned (small call (List.mem_append_right _ List.mem_cons_self))
  obtain ⟨t, rest, same⟩ := runTexts_same keys lib held silent
  have owns : t.heap.Owns ps.reduceOption := same.owns.perm listed
  have readable : ps.map (·.bind t.heap.block) = values := by
    rw [← read]
    apply List.map_congr_left
    intro p member
    cases p with
    | none => rfl
    | some q =>
        apply same.same
        apply listed.mem_iff.mpr
        exact List.reduceOption_mem_iff.mpr member
  have last : t.heap.Owns (t.listed ++ []) := by
    rw [List.append_nil]
    exact (same.kept held).owns
  obtain ⟨h, freed, empty, _⟩ := last.freeAll
  exact ⟨o, r, ps, t, ran, plain, called, rest, returned.trans (congrArg some readable.symm), owns,
    h, freed, empty⟩

end Kept

/-- A text that is returned twice, and then kept over a step. -/
theorem runTexts_live_greeting :
    TextsLive greetingLib shortKeys encodingOutput [.getString [2, 3]] (.getBinary [(2, 0), (2, 0)])
      [.setString [(1, some greetingAscii85)], .doStep idleStep 0 0] := by
  refine runTexts_live ?_ ?_ ?_
  · simp [TextCall.references]
  · intro fmu
    simp [TextCall.values]
  · intro c member fmu
    simp only [List.mem_cons, List.not_mem_nil, or_false] at member
    rcases member with rfl | rfl <;> rfl

end DseFmi.Fmu
