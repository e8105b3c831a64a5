import DseFmi.Fmu.VarTableRun
import DseFmi.Generate.MapLayout

/-!
# Direct access and access by reference

The value references of a simulation with a direct index are offsets in a map. An FMU with the
map loads and stores there; one without it looks the same references up in its hash maps. Both
give the same answers in every run, as long as the model computes the same from the same values.
-/

namespace DseFmi.Fmu

open DseFmi.Library
open DseFmi.Generate (DirectIndexCall Slot addedPairs runCalls runCalls_represents
  addedPairs_calculateMapOffsets mem_slots)

structure MappedVariable where
  vr : UInt32
  signal : FmuSignalVectorIndex
  deriving DecidableEq, Repr

section Steps

variable (vars : List MappedVariable)

def scalarValues (fmu : FmuInstanceData) : List Double :=
  vars.map fun v => (fmu.getScalar v.signal).getD 0

def mapValues (fmu : FmuInstanceData) : List Double :=
  vars.map fun v => (fmu.directIndex.map fun di => di.map.load64 v.vr.toNat).getD 0

def writeScalar (fmu : FmuInstanceData) (entry : MappedVariable × Double) : FmuInstanceData :=
  fmu.setScalar entry.1.signal entry.2

def writeMap (fmu : FmuInstanceData) (entry : MappedVariable × Double) : FmuInstanceData :=
  { fmu with
    directIndex := fmu.directIndex.map fun di =>
      { di with map := di.map.store64 entry.1.vr.toNat entry.2 } }

/-- A model computes its next state, the values after a step and a status, from its state, the
time and the size of the step and the values before. -/
abbrev ModelFunc (σ : Type) := σ → Double → Double → List Double → σ × List Double × Int

structure SignalAccess where
  values : FmuInstanceData → List Double
  write : FmuInstanceData → MappedVariable × Double → FmuInstanceData
  frame : ∀ fmu entry, SameBinaryIndex fmu (write fmu entry)

theorem sameBinaryIndex_writeScalar (fmu : FmuInstanceData) (entry : MappedVariable × Double) :
    SameBinaryIndex fmu (writeScalar fmu entry) := by
  refine ⟨rfl, rfl, fun allocated => allocated.setScalar _ _, ?_⟩
  intro q valid
  rw [writeScalar, getBinary_setScalar]
  exact valid

theorem sameBinaryIndex_writeMap (fmu : FmuInstanceData) (entry : MappedVariable × Double) :
    SameBinaryIndex fmu (writeMap fmu entry) :=
  ⟨rfl, rfl, id, fun _ => id⟩

def indexedAccess : SignalAccess :=
  ⟨scalarValues vars, writeScalar, sameBinaryIndex_writeScalar⟩

def directAccess : SignalAccess := ⟨mapValues vars, writeMap, sameBinaryIndex_writeMap⟩

namespace SignalAccess

variable {vars} (access : SignalAccess)

/-- The values are written one after the other. -/
def writeAll (entries : List (MappedVariable × Double)) (fmu : FmuInstanceData) :
    FmuInstanceData :=
  entries.foldl access.write fmu

theorem sameBinaryIndex_writeAll (entries : List (MappedVariable × Double))
    (fmu : FmuInstanceData) : SameBinaryIndex fmu (access.writeAll entries fmu) := by
  induction entries generalizing fmu with
  | nil => exact .refl fmu
  | cons entry entries ih => exact (access.frame fmu entry).trans (ih _)

variable {σ : Type} (vars) (model : ModelFunc σ) (s : σ)

def modelStep (fmu : FmuInstanceData) (t h : Double) : FmuInstanceData × Int :=
  let result := model s t h (access.values fmu)
  (access.writeAll (vars.zip result.2.1) fmu, result.2.2)

theorem modelStep_frame (fmu : FmuInstanceData) (t h : Double) :
    SameBinaryIndex fmu (access.modelStep vars model s fmu t h).1 :=
  access.sameBinaryIndex_writeAll _ fmu

theorem modelStep_rx (fmu : FmuInstanceData) (t h : Double) :
    (access.modelStep vars model s fmu t h).1.binaryRx = fmu.binaryRx :=
  (access.modelStep_frame vars model s fmu t h).rx

theorem modelStep_decode (fmu : FmuInstanceData) (t h : Double) :
    (access.modelStep vars model s fmu t h).1.decodeFunc = fmu.decodeFunc :=
  (access.modelStep_frame vars model s fmu t h).decode

theorem modelStep_allocated (fmu : FmuInstanceData) (t h : Double) (allocated : fmu.Allocated) :
    (access.modelStep vars model s fmu t h).1.Allocated :=
  (access.modelStep_frame vars model s fmu t h).allocated allocated

theorem modelStep_valid (fmu : FmuInstanceData) (t h : Double) (p : FmuSignalVectorIndex)
    (valid : fmu.getBinary p ≠ none) :
    (access.modelStep vars model s fmu t h).1.getBinary p ≠ none :=
  (access.modelStep_frame vars model s fmu t h).valid p valid

def step : FmuStep where
  run := access.modelStep vars model s
  binaryRx := access.modelStep_rx vars model s
  decodeFunc := access.modelStep_decode vars model s
  allocated := access.modelStep_allocated vars model s
  valid := access.modelStep_valid vars model s

end SignalAccess

inductive RealsCall where
  | setReal (request : Request)
  | getReal (request : Request)
  | doStep (currentCommunicationPoint communicationStepSize : Double)

variable {σ : Type} (model : ModelFunc σ) (access : SignalAccess)

/-- What a call leaves, the values that it gets and its status. -/
def realsCall (s : σ) (fmu : FmuInstanceData) :
    RealsCall → (σ × FmuInstanceData) × List Double × Nat
  | .setReal request => ((s, fmi2SetReal fmu request), [], fmi2OK)
  | .getReal request => ((s, (fmi2GetReal fmu request).1), (fmi2GetReal fmu request).2, fmi2OK)
  | .doStep t h =>
      let result := fmi2DoStep (access.step vars model s) fmu t h
      (((model s t h (access.values (offered fmu))).1, result.1), [], result.2)

def realsRun : σ → FmuInstanceData → List RealsCall → List (List Double × Nat)
  | _, _, [] => []
  | s, fmu, call :: calls =>
      let result := realsCall vars model access s fmu call
      result.2 :: realsRun result.1.1 result.1.2 calls

end Steps

/-- The variables have slots of their own in the map, and entries of their own in the hash
maps. -/
structure SeparateSlots (vars : List MappedVariable) (input output : HashMap FmuSignalVectorIndex)
    (size : UInt32) : Prop where
  found : ∀ v ∈ vars,
    ((output.lookup (vrIdx v.vr)).or (input.lookup (vrIdx v.vr))) = some v.signal
  admitted : ∀ v ∈ vars, Admitted size v.vr
  apart : ∀ v ∈ vars, ∀ w ∈ vars, v ≠ w →
    v.signal ≠ w.signal ∧ Disjoint8 v.vr.toNat w.vr.toNat

structure SameValues (vars : List MappedVariable) (input output : HashMap FmuSignalVectorIndex)
    (size : UInt32) (fmu gmu : FmuInstanceData) : Prop where
  input : fmu.scalarInput = input
  output : fmu.scalarOutput = output
  unmapped : fmu.directIndex = none
  plain : fmu.marshalList = [] ∧ gmu.marshalList = []
  mapped : ∃ di, gmu.directIndex = some di ∧ di.size = size ∧
    ∀ v ∈ vars, fmu.getScalar v.signal = some (di.map.load64 v.vr.toNat)

/-- Only variables are accessed, and only inputs are set. -/
def RealsCall.Allowed (vars : List MappedVariable) (input : HashMap FmuSignalVectorIndex) :
    RealsCall → Prop
  | .setReal request => ∀ entry ∈ request, ∃ v ∈ vars, v.vr = entry.1 ∧
      input.lookup (vrIdx v.vr) = some v.signal
  | .getReal request => ∀ entry ∈ request, ∃ v ∈ vars, v.vr = entry.1
  | .doStep _ _ => True

section Relation

variable {vars : List MappedVariable} {input output : HashMap FmuSignalVectorIndex}
  {size : UInt32} {fmu gmu : FmuInstanceData}

theorem SameValues.write (slots : SeparateSlots vars input output size)
    (same : SameValues vars input output size fmu gmu) {v : MappedVariable} (member : v ∈ vars)
    (x : Double) :
    SameValues vars input output size (writeScalar fmu (v, x)) (writeMap gmu (v, x)) := by
  obtain ⟨di, direct, sized, values⟩ := same.mapped
  refine ⟨same.input, same.output, same.unmapped, same.plain,
    { di with map := di.map.store64 v.vr.toNat x }, ?_, sized, ?_⟩
  · rw [writeMap, direct]
    rfl
  · intro w listed
    dsimp only [writeScalar]
    by_cases one : v = w
    · subst one
      have valid : fmu.getScalar v.signal ≠ none := by
        rw [values v member]
        exact Option.some_ne_none _
      rw [getScalar_setScalar_self valid, Memory.load64_store64_self]
    · obtain ⟨other, disjoint⟩ := slots.apart v member w listed one
      have kept : (di.map.storeAll [(v.vr.toNat, x)]).load64 w.vr.toNat =
          di.map.load64 w.vr.toNat := by
        apply Memory.load64_storeAll_disjoint
        simpa using disjoint
      rw [getScalar_setScalar_ne other, values w listed]
      exact congrArg some kept.symm

theorem SameValues.writeAll (slots : SeparateSlots vars input output size)
    (same : SameValues vars input output size fmu gmu)
    {entries : List (MappedVariable × Double)} (members : ∀ entry ∈ entries, entry.1 ∈ vars) :
    SameValues vars input output size ((indexedAccess vars).writeAll entries fmu)
      ((directAccess vars).writeAll entries gmu) := by
  induction entries generalizing fmu gmu with
  | nil => exact same
  | cons entry entries ih =>
      apply ih
      · exact same.write slots (members entry List.mem_cons_self) entry.2
      · exact fun other later => members other (List.mem_cons_of_mem _ later)

theorem SameValues.values (same : SameValues vars input output size fmu gmu) :
    (indexedAccess vars).values fmu = (directAccess vars).values gmu := by
  obtain ⟨di, direct, _, values⟩ := same.mapped
  apply List.map_congr_left
  intro v member
  rw [values v member, direct]
  rfl

/-- Without a variable table a step is offered the signals after their reset. -/
theorem offered_plain (plain : fmu.marshalList = []) :
    offered fmu = fmuDefaultSignalsReset fmu := by
  have reset : (fmuDefaultSignalsReset fmu).marshalList = [] := by
    unfold fmuDefaultSignalsReset
    split <;> exact plain
  rw [offered, reset]
  rfl

theorem SameValues.reset (same : SameValues vars input output size fmu gmu) :
    SameValues vars input output size (fmuDefaultSignalsReset fmu)
      (fmuDefaultSignalsReset gmu) := by
  have keeps (fmu : FmuInstanceData) :
      (fmuDefaultSignalsReset fmu).scalarInput = fmu.scalarInput ∧
        (fmuDefaultSignalsReset fmu).scalarOutput = fmu.scalarOutput ∧
        (fmuDefaultSignalsReset fmu).directIndex = fmu.directIndex ∧
        (fmuDefaultSignalsReset fmu).marshalList = fmu.marshalList := by
    unfold fmuDefaultSignalsReset
    split <;> exact ⟨rfl, rfl, rfl, rfl⟩
  obtain ⟨fmuInput, fmuOutput, fmuDirect, fmuPlain⟩ := keeps fmu
  obtain ⟨_, _, gmuDirect, gmuPlain⟩ := keeps gmu
  obtain ⟨di, direct, sized, values⟩ := same.mapped
  refine ⟨fmuInput.trans same.input, fmuOutput.trans same.output, fmuDirect.trans same.unmapped,
    ⟨fmuPlain.trans same.plain.1, gmuPlain.trans same.plain.2⟩, di,
      gmuDirect.trans direct, sized, ?_⟩
  intro v member
  rw [getScalar_reset]
  exact values v member

theorem fmi2DoStep_plain {step : FmuStep} {fmu : FmuInstanceData} {t h : Double}
    (plain : (step.run (offered fmu) t h).1.marshalList = []) :
    fmi2DoStep step fmu t h = ({ (step.run (offered fmu) t h).1 with signalsReset := false },
      if (step.run (offered fmu) t h).2 = 0 then fmi2OK else fmi2Error) := by
  rw [fmi2DoStep, plain]
  rfl

theorem SameValues.doStep {σ : Type} (model : ModelFunc σ) (s : σ)
    (slots : SeparateSlots vars input output size)
    (same : SameValues vars input output size fmu gmu) (t h : Double) :
    SameValues vars input output size
        (fmi2DoStep ((indexedAccess vars).step vars model s) fmu t h).1
        (fmi2DoStep ((directAccess vars).step vars model s) gmu t h).1 ∧
      (fmi2DoStep ((indexedAccess vars).step vars model s) fmu t h).2 =
        (fmi2DoStep ((directAccess vars).step vars model s) gmu t h).2 ∧
      model s t h ((indexedAccess vars).values (offered fmu)) =
        model s t h ((directAccess vars).values (offered gmu)) := by
  have offers : SameValues vars input output size (offered fmu) (offered gmu) := by
    rw [offered_plain same.plain.1, offered_plain same.plain.2]
    exact same.reset
  have result : model s t h ((indexedAccess vars).values (offered fmu)) =
      model s t h ((directAccess vars).values (offered gmu)) := by
    rw [offers.values]
  have wrote : SameValues vars input output size
      (((indexedAccess vars).step vars model s).run (offered fmu) t h).1
      (((directAccess vars).step vars model s).run (offered gmu) t h).1 := by
    dsimp only [SignalAccess.step, SignalAccess.modelStep]
    rw [result]
    apply offers.writeAll slots
    intro entry member
    exact (List.of_mem_zip member).1
  have status : (((indexedAccess vars).step vars model s).run (offered fmu) t h).2 =
      (((directAccess vars).step vars model s).run (offered gmu) t h).2 :=
    congrArg (fun r : σ × List Double × Int => r.2.2) result
  rw [fmi2DoStep_plain wrote.plain.1, fmi2DoStep_plain wrote.plain.2, status]
  exact ⟨⟨wrote.input, wrote.output, wrote.unmapped, wrote.plain, wrote.mapped⟩, rfl, result⟩

/-- Only the map and its size count on the side of the map. -/
theorem SameValues.withDirect {di dj : DirectIndex} (logged : List LogMessage)
    (same : SameValues vars input output size fmu gmu) (direct : gmu.directIndex = some di)
    (map : dj.map = di.map) (sized : dj.size = di.size) :
    SameValues vars input output size fmu (gmu.withDirect logged dj) := by
  obtain ⟨dk, direct', size', values⟩ := same.mapped
  obtain rfl : di = dk := Option.some.inj (direct.symm.trans direct')
  refine ⟨same.input, same.output, same.unmapped, same.plain, dj, rfl, sized.trans size', ?_⟩
  intro v member
  rw [map]
  exact values v member

/-- A variable is read alike; the access is recorded on the side of the map. -/
theorem SameValues.getReal_one (slots : SeparateSlots vars input output size)
    (same : SameValues vars input output size fmu gmu) {v : MappedVariable} (member : v ∈ vars)
    (x : Double) :
    (getReal fmi2Errors fmu v.vr x).1 = fmu ∧
      SameValues vars input output size fmu (getReal fmi2Errors gmu v.vr x).1 ∧
      (getReal fmi2Errors fmu v.vr x).2 = (getReal fmi2Errors gmu v.vr x).2 := by
  obtain ⟨di, direct, sized, values⟩ := same.mapped
  have pointer : fmu.scalarPointer (vrIdx v.vr) = some v.signal := by
    have found := slots.found v member
    rw [← same.input, ← same.output] at found
    rw [FmuInstanceData.scalarPointer]
    cases output : fmu.scalarOutput.lookup (vrIdx v.vr) with
    | none => simpa [output] using found
    | some signal => simpa [output] using found
  have plain : getReal fmi2Errors fmu v.vr x = (fmu, di.map.load64 v.vr.toNat) := by
    simp only [getReal, same.unmapped, getIndexed, pointer, values v member, Option.getD_some]
  have admitted : Admitted di.size v.vr := sized ▸ slots.admitted v member
  obtain ⟨logged, mapped⟩ := getReal_direct fmi2Errors direct (v.vr, x)
  rw [plain, mapped, if_pos admitted]
  exact ⟨rfl, same.withDirect logged direct rfl rfl, rfl⟩

theorem SameValues.setReal_one (slots : SeparateSlots vars input output size)
    (same : SameValues vars input output size fmu gmu) {v : MappedVariable} (member : v ∈ vars)
    (isInput : input.lookup (vrIdx v.vr) = some v.signal) (x : Double) :
    SameValues vars input output size (setReal fmi2Errors fmu v.vr x)
      (setReal fmi2Errors gmu v.vr x) := by
  obtain ⟨di, direct, sized, _⟩ := same.mapped
  have plain : setReal fmi2Errors fmu v.vr x = writeScalar fmu (v, x) := by
    simp only [setReal, same.unmapped, setIndexed, same.input, isInput]
    rfl
  have admitted : Admitted di.size v.vr := sized ▸ slots.admitted v member
  obtain ⟨logged, mapped⟩ := setReal_direct fmi2Errors direct (v.vr, x)
  have stored : stores (Admitted di.size) di.map [(v.vr, x)] = di.map.store64 v.vr.toNat x := by
    simp [stores, admitted, Memory.storeAll]
  have wrote := same.write slots member x
  have direct_after : (writeMap gmu (v, x)).directIndex =
      some { di with map := di.map.store64 v.vr.toNat x } := by
    rw [writeMap, direct]
    rfl
  rw [plain, mapped]
  exact wrote.withDirect logged direct_after stored rfl

theorem SameValues.getReal (slots : SeparateSlots vars input output size)
    (same : SameValues vars input output size fmu gmu) {request : Request}
    (known : ∀ entry ∈ request, ∃ v ∈ vars, v.vr = entry.1) :
    SameValues vars input output size (fmi2GetReal fmu request).1 (fmi2GetReal gmu request).1 ∧
      (fmi2GetReal fmu request).2 = (fmi2GetReal gmu request).2 := by
  simp only [fmi2GetReal]
  induction request generalizing gmu with
  | nil => exact ⟨same, rfl⟩
  | cons entry request ih =>
      obtain ⟨_, x⟩ := entry
      obtain ⟨v, member, rfl⟩ := known _ List.mem_cons_self
      obtain ⟨unchanged, after, value⟩ := same.getReal_one slots member x
      obtain ⟨rest, values⟩ := ih after fun other later =>
        known other (List.mem_cons_of_mem _ later)
      rw [getReals, getReals]
      dsimp only
      rw [unchanged, value, values]
      exact ⟨rest, rfl⟩

theorem SameValues.setReal (slots : SeparateSlots vars input output size)
    (same : SameValues vars input output size fmu gmu) {request : Request}
    (inputs : ∀ entry ∈ request, ∃ v ∈ vars, v.vr = entry.1 ∧
      input.lookup (vrIdx v.vr) = some v.signal) :
    SameValues vars input output size (fmi2SetReal fmu request) (fmi2SetReal gmu request) := by
  induction request generalizing fmu gmu with
  | nil => exact same
  | cons entry request ih =>
      obtain ⟨_, x⟩ := entry
      obtain ⟨v, member, rfl, isInput⟩ := inputs _ List.mem_cons_self
      exact ih (same.setReal_one slots member isInput x) fun other later =>
        inputs other (List.mem_cons_of_mem _ later)

theorem SameValues.run {σ : Type} (model : ModelFunc σ)
    (slots : SeparateSlots vars input output size)
    (same : SameValues vars input output size fmu gmu) {calls : List RealsCall}
    (allowed : ∀ call ∈ calls, call.Allowed vars input) (s : σ) :
    realsRun vars model (indexedAccess vars) s fmu calls =
      realsRun vars model (directAccess vars) s gmu calls := by
  induction calls generalizing s fmu gmu with
  | nil => rfl
  | cons call calls ih =>
      have here := allowed call List.mem_cons_self
      have later : ∀ other ∈ calls, other.Allowed vars input :=
        fun other member => allowed other (List.mem_cons_of_mem _ member)
      rw [realsRun, realsRun]
      cases call with
      | setReal request => exact congrArg _ (ih (same.setReal slots here) later s)
      | getReal request =>
          obtain ⟨after, values⟩ := same.getReal slots here
          simp only [realsCall, values]
          exact congrArg _ (ih after later s)
      | doStep t h =>
          obtain ⟨after, status, next⟩ := same.doStep model s slots t h
          simp only [realsCall, status, next]
          exact congrArg _ (ih after later _)

end Relation

/-- The slots of a direct index, once the offsets are calculated. -/
def mapSlots (calls : List DirectIndexCall) : List Slot :=
    (runCalls calls).calculateMapOffsets.slots

def slotVariables (calls : List DirectIndexCall) (pointer : Slot → FmuSignalVectorIndex) :
    List MappedVariable :=
  (mapSlots calls).map fun slot => ⟨UInt32.ofNat slot.offset, pointer slot⟩

/-- The signals of a direct index, in an FMU without a map that has indexed them by their
offsets, and in one with a map for all of them. -/
structure BothWays (calls : List DirectIndexCall) (pointer : Slot → FmuSignalVectorIndex)
    (fmu gmu : FmuInstanceData) (di : DirectIndex) : Prop where
  distinct : ∀ s ∈ mapSlots calls, ∀ t ∈ mapSlots calls, pointer s = pointer t → s = t
  indexed : ∀ s ∈ mapSlots calls, ((fmu.scalarOutput.lookup (Nat.repr s.offset)).or
    (fmu.scalarInput.lookup (Nat.repr s.offset))) = some (pointer s)
  unmapped : fmu.directIndex = none
  mapped : gmu.directIndex = some di
  fits : 24 * (addedPairs calls).length ≤ di.size.toNat
  small : di.size.toNat < 2 ^ 31
  values : ∀ s ∈ mapSlots calls, fmu.getScalar (pointer s) = some (di.map.load64 s.offset)
  plain : fmu.marshalList = [] ∧ gmu.marshalList = []

section Generated

variable {calls : List DirectIndexCall} {pointer : Slot → FmuSignalVectorIndex}
  {fmu gmu : FmuInstanceData} {di : DirectIndex}

theorem mapSlots_inside (calls : List DirectIndexCall) :
    ∀ s ∈ mapSlots calls, s.offset + 8 ≤ 24 * (addedPairs calls).length := by
  intro slot member
  have layout := (runCalls_represents calls).mapLayout
  obtain ⟨group, listed, _, signal, inGroup, _, offset⟩ := mem_slots.mp member
  have inside := (layout.inside group listed signal inGroup).2
  have bounded := layout.bounded group listed
  rw [addedPairs_calculateMapOffsets] at bounded
  omega

theorem mapSlots_disjoint {s t : Slot} (hs : s ∈ mapSlots calls) (ht : t ∈ mapSlots calls)
    (different : s ≠ t) : Disjoint8 s.offset t.offset := by
  have layout := (runCalls_represents calls).mapLayout
  have pairs : (mapSlots calls).Pairwise fun a b => Disjoint8 a.offset b.offset :=
    layout.disjoint.imp fun first => .inl first
  have symm : Std.Symm fun a b : Slot => Disjoint8 a.offset b.offset := ⟨fun _ _ => Disjoint8.symm⟩
  exact pairs.forall hs ht different

theorem BothWays.toNat_vr (ways : BothWays calls pointer fmu gmu di) {s : Slot}
    (member : s ∈ mapSlots calls) : (UInt32.ofNat s.offset).toNat = s.offset := by
  have inside := mapSlots_inside calls s member
  have fits := ways.fits
  have small := ways.small
  exact UInt32.toNat_ofNat_of_lt' (by simp only [UInt32.size]; omega)

theorem BothWays.vrIdx_vr (ways : BothWays calls pointer fmu gmu di) {s : Slot}
    (member : s ∈ mapSlots calls) : vrIdx (UInt32.ofNat s.offset) = Nat.repr s.offset := by
  have inside := mapSlots_inside calls s member
  have fits := ways.fits
  have small := ways.small
  rw [vrIdx_of_lt (by rw [ways.toNat_vr member]; omega), ways.toNat_vr member]

theorem BothWays.separate (ways : BothWays calls pointer fmu gmu di) :
    SeparateSlots (slotVariables calls pointer) fmu.scalarInput fmu.scalarOutput di.size := by
  refine ⟨?_, ?_, ?_⟩
  · intro v member
    obtain ⟨s, listed, rfl⟩ := List.mem_map.mp member
    dsimp only
    rw [ways.vrIdx_vr listed]
    exact ways.indexed s listed
  · intro v member
    obtain ⟨s, listed, rfl⟩ := List.mem_map.mp member
    have inside := mapSlots_inside calls s listed
    have fits := ways.fits
    rw [Admitted, ways.toNat_vr listed]
    omega
  · intro v hv w hw different
    obtain ⟨s, hs, rfl⟩ := List.mem_map.mp hv
    obtain ⟨t, ht, rfl⟩ := List.mem_map.mp hw
    have other : s ≠ t := by
      rintro rfl
      exact different rfl
    refine ⟨fun same => other (ways.distinct s hs t ht same), ?_⟩
    dsimp only
    rw [ways.toNat_vr hs, ways.toNat_vr ht]
    exact mapSlots_disjoint hs ht other

theorem BothWays.sameValues (ways : BothWays calls pointer fmu gmu di) :
    SameValues (slotVariables calls pointer) fmu.scalarInput fmu.scalarOutput di.size fmu gmu := by
  refine ⟨rfl, rfl, ways.unmapped, ways.plain, di, ways.mapped, rfl, ?_⟩
  intro v member
  obtain ⟨s, listed, rfl⟩ := List.mem_map.mp member
  dsimp only
  rw [ways.toNat_vr listed]
  exact ways.values s listed

end Generated

/-- An importer that sets inputs and gets variables cannot tell the map from the hash maps. -/
theorem directAccess_agrees {calls : List DirectIndexCall} {pointer : Slot → FmuSignalVectorIndex}
    {fmu gmu : FmuInstanceData} {di : DirectIndex} (ways : BothWays calls pointer fmu gmu di)
    {σ : Type} (model : ModelFunc σ) {run : List RealsCall}
    (allowed : ∀ call ∈ run, call.Allowed (slotVariables calls pointer) fmu.scalarInput) (s : σ) :
    realsRun (slotVariables calls pointer) model (directAccess (slotVariables calls pointer)) s gmu
        run =
      realsRun (slotVariables calls pointer) model (indexedAccess (slotVariables calls pointer)) s
        fmu run :=
  (ways.sameValues.run model ways.separate allowed s).symm

def twoSlots : List DirectIndexCall := [.addSignal "phys" "u", .addSignal "phys" "y"]

def twoScalars : FmuInstanceData :=
  { FmuInstanceData.null with
    scalarInput := AList.insert "0" ⟨0, 0⟩ ∅
    scalarOutput := AList.insert "8" ⟨0, 1⟩ ∅
    data := [⟨2, [some "u", some "y"], some [0, 0], none⟩] }

def twoMapped : FmuInstanceData :=
  { twoScalars with directIndex := some ⟨fun _ => 0, 48, []⟩ }

/-- The output is the last input, with a counter of the steps as its low bits. -/
def lastInput : ModelFunc Nat := fun n _ _ values =>
  (n + 1, [values.getD 0 0, values.getD 0 0 + BitVec.ofNat 64 n], 0)

def slotPointer (slot : Slot) : FmuSignalVectorIndex := ⟨0, slot.offset / 8⟩

theorem bothWays_twoSlots :
    BothWays twoSlots slotPointer twoScalars twoMapped ⟨fun _ => 0, 48, []⟩ where
  distinct := by decide
  indexed := by decide
  unmapped := rfl
  mapped := rfl
  fits := by decide
  small := by decide
  values := by decide
  plain := ⟨rfl, rfl⟩

theorem directAccess_agrees_twoSlots :
    let vars := slotVariables twoSlots slotPointer
    let run : List RealsCall :=
      [.setReal [(0, 5)], .doStep 0 1, .doStep 1 1, .getReal [(8, 0), (0, 0)]]
    realsRun vars lastInput (directAccess vars) 0 twoMapped run =
        realsRun vars lastInput (indexedAccess vars) 0 twoScalars run ∧
      realsRun vars lastInput (indexedAccess vars) 0 twoScalars run =
        [([], 0), ([], 0), ([], 0), ([6, 5], 0)] := by
  intro vars run
  constructor
  · apply directAccess_agrees bothWays_twoSlots
    intro call member
    simp only [run, List.mem_cons, List.not_mem_nil, or_false] at member
    rcases member with rfl | rfl | rfl | rfl
    · intro entry single
      rw [List.mem_singleton.mp single]
      exact ⟨⟨0, ⟨0, 0⟩⟩, by decide, rfl, by decide⟩
    · trivial
    · trivial
    · intro entry listed
      simp only [List.mem_cons, List.not_mem_nil, or_false] at listed
      rcases listed with rfl | rfl
      · exact ⟨⟨8, ⟨0, 1⟩⟩, by decide, rfl⟩
      · exact ⟨⟨0, ⟨0, 0⟩⟩, by decide, rfl⟩
  · decide

end DseFmi.Fmu
