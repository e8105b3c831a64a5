import DseFmi.Fmu.Period

/-!
# Inputs and outputs between two steps

Setting inputs and reading outputs share the reset: the first set after a step resets the
outputs of that step too. Apart from this the order of sets and reads does not matter.
-/

namespace DseFmi.Fmu

inductive Exchange where
  | set (request : List (UInt32 × Option CString))
  | get (vrs : List UInt32)
  deriving DecidableEq, Repr

/-- The requests of the setter, in the order of the calls. -/
def sets : List Exchange → List (List (UInt32 × Option CString))
  | [] => []
  | .set request :: run => request :: sets run
  | .get _ :: run => sets run

/-- The requests of the getter, in the order of the calls. -/
def gets : List Exchange → List (List UInt32)
  | [] => []
  | .set _ :: run => gets run
  | .get vrs :: run => vrs :: gets run

def results (lib : CLib) : FmuInstanceData → List Exchange → List (List StringValue)
  | _, [] => []
  | fmu, .set request :: run => results lib (fmi2SetString lib fmu request) run
  | fmu, .get vrs :: run => fmi2GetString lib fmu vrs :: results lib fmu run

/-- For each call of the getter, whether a set came before it. -/
def afterSetFrom : Bool → List Exchange → List Bool
  | _, [] => []
  | _, .set _ :: run => afterSetFrom true run
  | seen, .get _ :: run => seen :: afterSetFrom seen run

def afterSet : List Exchange → List Bool := afterSetFrom false

def OtherSignals (fmu : FmuInstanceData) (requests : List (List (UInt32 × Option CString)))
    (reads : List (List UInt32)) : Prop :=
  ∀ request ∈ requests, ∀ entry ∈ request, ∀ vrs ∈ reads, ∀ vr ∈ vrs,
    ∀ p ∈ fmu.binaryRx.lookup (vrIdx entry.1), fmu.binaryTx.lookup (vrIdx vr) ≠ some p

section Reads

variable {lib : CLib} {fmu gmu hmu : FmuInstanceData}

/-- The reads of some references find the same; the signals that are set are the same too. -/
structure SameReads (reads : List (List UInt32)) (fmu gmu : FmuInstanceData) : Prop where
  rx : gmu.binaryRx = fmu.binaryRx
  tx : gmu.binaryTx = fmu.binaryTx
  encode : gmu.encodeFunc = fmu.encodeFunc
  signal : ∀ vrs ∈ reads, ∀ vr ∈ vrs, ∀ p, fmu.binaryTx.lookup (vrIdx vr) = some p →
    gmu.getBinary p = fmu.getBinary p

theorem SameReads.refl (reads : List (List UInt32)) (fmu : FmuInstanceData) :
    SameReads reads fmu fmu :=
  ⟨rfl, rfl, rfl, fun _ _ _ _ _ _ => rfl⟩

theorem SameReads.trans {reads : List (List UInt32)} (first : SameReads reads fmu gmu)
    (second : SameReads reads gmu hmu) : SameReads reads fmu hmu := by
  refine ⟨second.rx.trans first.rx, second.tx.trans first.tx,
    second.encode.trans first.encode, ?_⟩
  intro vrs listed vr member p found
  have found_after : gmu.binaryTx.lookup (vrIdx vr) = some p := by
    rw [first.tx]
    exact found
  exact (second.signal vrs listed vr member p found_after).trans
    (first.signal vrs listed vr member p found)

theorem SameReads.fmi2GetString {reads : List (List UInt32)} (same : SameReads reads fmu gmu)
    {vrs : List UInt32} (listed : vrs ∈ reads) :
    fmi2GetString lib gmu vrs = fmi2GetString lib fmu vrs := by
  apply List.map_congr_left
  intro vr member
  have found : (gmu.binaryTx.lookup (vrIdx vr)).bind gmu.getBinary =
      (fmu.binaryTx.lookup (vrIdx vr)).bind fmu.getBinary := by
    rw [same.tx]
    cases hp : fmu.binaryTx.lookup (vrIdx vr) with
    | none => rfl
    | some p => exact same.signal vrs listed vr member p hp
  rw [getString, found, same.encode, getString]

theorem sameReads_setString {reads : List (List UInt32)} {entry : UInt32 × Option CString}
    (other : ∀ vrs ∈ reads, ∀ vr ∈ vrs, ∀ p ∈ fmu.binaryRx.lookup (vrIdx entry.1),
      fmu.binaryTx.lookup (vrIdx vr) ≠ some p) :
    SameReads reads fmu (setString lib fmu entry.1 entry.2) := by
  obtain ⟨vr, value⟩ := entry
  unfold setString
  cases value with
  | none => exact .refl reads fmu
  | some text =>
      cases rx : fmu.binaryRx.lookup (vrIdx vr) with
      | none => exact ⟨rfl, rfl, rfl, fun _ _ _ _ _ _ => rfl⟩
      | some p =>
          refine ⟨rfl, rfl, rfl, fun vrs listed wr member q tx => ?_⟩
          apply getBinary_modifyBinary_ne
          intro equal
          exact other vrs listed wr member p rx (equal ▸ tx)

theorem sameReads_setStrings {reads : List (List UInt32)}
    {request : List (UInt32 × Option CString)} (other : OtherSignals fmu [request] reads) :
    SameReads reads fmu (setStrings lib fmu request) := by
  induction request generalizing fmu with
  | nil => exact .refl reads fmu
  | cons entry request ih =>
      have entries : ∀ e ∈ entry :: request, ∀ vrs ∈ reads, ∀ vr ∈ vrs,
          ∀ p ∈ fmu.binaryRx.lookup (vrIdx e.1), fmu.binaryTx.lookup (vrIdx vr) ≠ some p :=
        other _ List.mem_cons_self
      have first : SameReads reads fmu (setString lib fmu entry.1 entry.2) :=
        sameReads_setString (entries entry List.mem_cons_self)
      refine first.trans (ih ?_)
      intro listed single e member
      rw [List.mem_singleton.mp single] at member
      rw [first.rx, first.tx]
      exact entries e (List.mem_cons_of_mem _ member)

theorem signalsReset_setStrings (request : List (UInt32 × Option CString))
    (fmu : FmuInstanceData) :
    (setStrings lib fmu request).signalsReset = fmu.signalsReset := by
  induction request generalizing fmu with
  | nil => rfl
  | cons entry request ih =>
      exact (ih (setString lib fmu entry.1 entry.2)).trans
        (signalsReset_setString lib fmu entry.1 entry.2)

theorem reset_maps (fmu : FmuInstanceData) :
    (fmuDefaultSignalsReset fmu).binaryRx = fmu.binaryRx ∧
      (fmuDefaultSignalsReset fmu).binaryTx = fmu.binaryTx := by
  unfold fmuDefaultSignalsReset
  split <;> exact ⟨rfl, rfl⟩

theorem sameReads_fmi2SetString (lib : CLib) {reads : List (List UInt32)}
    {request : List (UInt32 × Option CString)} (other : OtherSignals fmu [request] reads) :
    SameReads reads (fmuDefaultSignalsReset fmu) (fmi2SetString lib fmu request) := by
  apply sameReads_setStrings
  rw [OtherSignals, (reset_maps fmu).1, (reset_maps fmu).2]
  exact other

end Reads

section Runs

variable {lib : CLib} {fmu gmu : FmuInstanceData}

theorem OtherSignals.mono {requests more : List (List (UInt32 × Option CString))}
    {reads : List (List UInt32)} (other : OtherSignals fmu requests reads)
    (subset : more ⊆ requests) : OtherSignals fmu more reads :=
  fun request member => other request (subset member)

theorem OtherSignals.of_sameReads {requests : List (List (UInt32 × Option CString))}
    {reads : List (List UInt32)} (other : OtherSignals fmu requests reads)
    (same : SameReads reads fmu gmu) : OtherSignals gmu requests reads := by
  rw [OtherSignals, same.rx, same.tx]
  exact other

/-- After the reset, every read returns what it returns right after the reset. -/
theorem results_of_signalsReset (lib : CLib) {reads : List (List UInt32)} {run : List Exchange}
    (reset : gmu.signalsReset = true) (other : OtherSignals gmu (sets run) reads)
    (listed : gets run ⊆ reads) (same : SameReads reads fmu gmu) :
    results lib gmu run = (gets run).map (fmi2GetString lib fmu) := by
  induction run generalizing gmu with
  | nil => rfl
  | cons call run ih =>
      cases call with
      | set request =>
          have first : OtherSignals gmu [request] reads := other.mono (by simp [sets])
          have set := sameReads_fmi2SetString lib first
          rw [reset_of_signalsReset reset] at set
          have done : (fmi2SetString lib gmu request).signalsReset = true := by
            rw [fmi2SetString, signalsReset_setStrings]
            exact reset_signalsReset gmu
          apply ih done _ listed (same.trans set)
          exact (other.mono (List.subset_cons_self _ _)).of_sameReads set
      | get vrs =>
          have member : vrs ∈ reads := listed List.mem_cons_self
          have rest := ih reset other (fun _ later => listed (List.mem_cons_of_mem _ later)) same
          rw [results, gets, List.map_cons, same.fmi2GetString member, rest]

theorem zip_afterSetFrom_true (run : List Exchange) :
    (afterSetFrom true run).zip (gets run) = (gets run).map fun vrs => (true, vrs) := by
  induction run with
  | nil => rfl
  | cons call run ih =>
      cases call with
      | set request => exact ih
      | get vrs => exact congrArg _ ih

/-- A read returns what it returns at the beginning, or, after a set, what it returns when
the signals are reset. -/
theorem results_eq {reads : List (List UInt32)} {run : List Exchange}
    (other : OtherSignals fmu (sets run) reads) (listed : gets run ⊆ reads) :
    results lib fmu run = ((afterSet run).zip (gets run)).map fun read =>
      fmi2GetString lib (if read.1 then fmuDefaultSignalsReset fmu else fmu) read.2 := by
  induction run with
  | nil => rfl
  | cons call run ih =>
      cases call with
      | get vrs =>
          have rest := ih other fun _ later => listed (List.mem_cons_of_mem _ later)
          exact congrArg _ rest
      | set request =>
          have first : OtherSignals fmu [request] reads := other.mono (by simp [sets])
          have set := sameReads_fmi2SetString lib first
          have done : (fmi2SetString lib fmu request).signalsReset = true := by
            rw [fmi2SetString, signalsReset_setStrings]
            exact reset_signalsReset fmu
          have reset : OtherSignals (fmuDefaultSignalsReset fmu) (sets run) reads := by
            rw [OtherSignals, (reset_maps fmu).1, (reset_maps fmu).2]
            exact other.mono (List.subset_cons_self _ _)
          have after := results_of_signalsReset lib done (reset.of_sameReads set) listed set
          rw [results, after, afterSet, afterSetFrom, gets, zip_afterSetFrom_true, List.map_map]
          rfl

theorem getElem?_results {run : List Exchange} (other : OtherSignals fmu (sets run) (gets run))
    (k : Nat) :
    (results lib fmu run)[k]? = ((afterSet run)[k]?.bind fun seen =>
      (gets run)[k]?.map fun vrs =>
        fmi2GetString lib (if seen then fmuDefaultSignalsReset fmu else fmu) vrs) := by
  rw [results_eq other (List.Subset.refl _), List.getElem?_map, List.zip_eq_zipWith,
    List.getElem?_zipWith']
  cases (afterSet run)[k]? with
  | none => rfl
  | some seen =>
      cases (gets run)[k]? with
      | none => rfl
      | some vrs => rfl

end Runs

/-- Two runs with the same sets and the same reads return the same for a read that is on
the same side of the first set in both of them, and for all reads once the signals are
reset. What is read before the first set is what the last step wrote. -/
theorem results_same_side (lib : CLib) {fmu : FmuInstanceData} {first second : List Exchange}
    (sameSets : sets first = sets second) (sameGets : gets first = gets second)
    (other : OtherSignals fmu (sets first) (gets first)) (k : Nat) :
    (fmu.signalsReset = true ∨ (afterSet first)[k]? = (afterSet second)[k]? →
      (results lib fmu first)[k]? = (results lib fmu second)[k]?) ∧
    ((afterSet first)[k]? = some false →
      (results lib fmu first)[k]? = (gets first)[k]?.map (fmi2GetString lib fmu)) := by
  have other_second : OtherSignals fmu (sets second) (gets second) :=
    sameSets ▸ sameGets ▸ other
  constructor
  · rintro (reset | same)
    · rw [results_of_signalsReset lib reset other (List.Subset.refl _) (.refl _ fmu),
        results_of_signalsReset lib reset other_second (List.Subset.refl _) (.refl _ fmu), sameGets]
    · rw [getElem?_results other, getElem?_results other_second, same, sameGets]
  · intro before
    rw [getElem?_results other, before]
    rfl

/-- One output, with the value of the last step, and one input. -/
def outputAndInput : FmuInstanceData :=
  let output : Buffer := ⟨some [120, 0], 2, by decide⟩
  { FmuInstanceData.null with
    binaryRx := AList.insert (vrIdx 4) ⟨0, 0⟩ ∅
    binaryTx := AList.insert (vrIdx 5) ⟨0, 1⟩ ∅
    data := [⟨2, [some "rx", some "tx"], none,
      some [⟨.null, none, none⟩, ⟨output, none, none⟩]⟩] }

def setInput : Exchange := .set [(4, some ⟨[97], by decide⟩)]

theorem otherSignals_outputAndInput (n : Nat) :
    OtherSignals outputAndInput (sets [setInput]) (List.replicate n [5]) := by
  intro request listed entry member vrs reads vr read p rx
  obtain rfl : request = [(4, some ⟨[97], by decide⟩)] := List.mem_singleton.mp listed
  obtain rfl : entry = (4, some ⟨[97], by decide⟩) := List.mem_singleton.mp member
  obtain rfl : vrs = [5] := List.eq_of_mem_replicate reads
  obtain rfl : vr = 5 := List.mem_singleton.mp read
  obtain rfl : FmuSignalVectorIndex.mk 0 0 = p := Option.some.inj rx
  decide

theorem results_same_side_outputAndInput :
    let first := [.get [5], setInput, .get [5], .get [5]]
    let second := [.get [5], .get [5], setInput, .get [5]]
    (results greetingLib outputAndInput first)[2]? =
        (results greetingLib outputAndInput second)[2]? ∧
      (results greetingLib outputAndInput first)[0]? =
        some (fmi2GetString greetingLib outputAndInput [5]) := by
  intro first second
  have other : OtherSignals outputAndInput (sets first) (gets first) :=
    otherSignals_outputAndInput 3
  exact ⟨(results_same_side greetingLib  rfl rfl other 2).1
      (.inr rfl),
    (results_same_side greetingLib  rfl rfl other 0).2 rfl⟩

/-- A set of the input before the output is read: the output is lost. -/
theorem results_set_first :
    let first := [.get [5], setInput]
    let second := [setInput, .get [5]]
    sets first = sets second ∧ gets first = gets second ∧
      OtherSignals outputAndInput (sets first) (gets first) ∧
      results greetingLib outputAndInput first = [[.text ⟨[120], by decide⟩]] ∧
      results greetingLib outputAndInput second = [[.null]] :=
  ⟨rfl, rfl, otherSignals_outputAndInput 1, by decide, by decide⟩

end DseFmi.Fmu
