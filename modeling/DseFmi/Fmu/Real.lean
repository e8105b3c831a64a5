import DseFmi.Fmu.Data
import DseFmi.Library.Decimal

/-!
# Access to real variables

Reals are found by the text of their value reference, or, when a direct index is
configured, at the offset which their value reference is. Every entry of a request is
processed on its own; an entry that is not found leaves its slot as it was.
-/

namespace DseFmi.Fmu

open DseFmi.Library

def vrefKeyLen : Nat := 10 + 1

def fmi2Error : Nat := 3

def fmi3Error : Nat := 3

def fmi2Errors : ErrorLog := ⟨fmi2Error, fmuLog, fmuLog_eq⟩

def fmi3Errors : ErrorLog := ⟨fmi3Error, fmi3FmuLog, fmi3FmuLog_eq⟩

/-- The key of a value reference in the hash maps. -/
def vrIdx (vr : UInt32) : String := printInt vrefKeyLen vr

/-- The requested references, each with the slot of its value. -/
abbrev Request := List (UInt32 × Double)

def DirectIndex.access (di : DirectIndex) (vr : UInt32) : DirectIndex :=
  { di with accessed := di.accessed ++ [vr.toNat] }

/-- One round of the direct indexing loop of the getters. -/
def getDirect (errors : ErrorLog) (di : DirectIndex) (fmu : FmuInstanceData) (vr : UInt32)
    (value : Double) : FmuInstanceData × Double :=
  if vr > di.size then (errors.fmuLog fmu errors.error "Error" "Invalid direct index", value)
  else ({ fmu with directIndex := some (di.access vr) }, di.map.load64 vr.toNat)

def setDirect (errors : ErrorLog) (di : DirectIndex) (fmu : FmuInstanceData) (vr : UInt32)
    (value : Double) : FmuInstanceData :=
  if vr > di.size then errors.fmuLog fmu errors.error "Error" "Invalid direct index"
  else
    { fmu with
      directIndex := some { di.access vr with map := di.map.store64 vr.toNat value } }

/-- The entry a getter reads: outputs first, then inputs. -/
def FmuInstanceData.scalarPointer (fmu : FmuInstanceData) (k : String) :
    Option FmuSignalVectorIndex :=
  match fmu.scalarOutput.lookup k with
  | some signal => some signal
  | none => fmu.scalarInput.lookup k

/-- One round of the hash map loop of the getters. -/
def getIndexed (fmu : FmuInstanceData) (vr : UInt32) (value : Double) :
    FmuInstanceData × Double :=
  match fmu.scalarPointer (vrIdx vr) with
  | none => (fmu, value)
  | some signal => (fmu, (fmu.getScalar signal).getD value)

def setIndexed (fmu : FmuInstanceData) (vr : UInt32) (value : Double) : FmuInstanceData :=
  match fmu.scalarInput.lookup (vrIdx vr) with
  | none => fmu
  | some signal => fmu.setScalar signal value

def getReal (errors : ErrorLog) (fmu : FmuInstanceData) (vr : UInt32) (value : Double) :
    FmuInstanceData × Double :=
  match fmu.directIndex with
  | some di => getDirect errors di fmu vr value
  | none => getIndexed fmu vr value

def setReal (errors : ErrorLog) (fmu : FmuInstanceData) (vr : UInt32) (value : Double) :
    FmuInstanceData :=
  match fmu.directIndex with
  | some di => setDirect errors di fmu vr value
  | none => setIndexed fmu vr value

theorem getReal_of_direct (errors : ErrorLog) {fmu : FmuInstanceData} {di : DirectIndex}
    (direct : fmu.directIndex = some di) (vr : UInt32) (value : Double) :
    getReal errors fmu vr value = getDirect errors di fmu vr value := by
  simp only [getReal, direct]

theorem getReal_of_indexed (errors : ErrorLog) {fmu : FmuInstanceData}
    (indexed : fmu.directIndex = none) (vr : UInt32) (value : Double) :
    getReal errors fmu vr value = getIndexed fmu vr value := by
  simp only [getReal, indexed]

theorem setReal_of_direct (errors : ErrorLog) {fmu : FmuInstanceData} {di : DirectIndex}
    (direct : fmu.directIndex = some di) (vr : UInt32) (value : Double) :
    setReal errors fmu vr value = setDirect errors di fmu vr value := by
  simp only [setReal, direct]

theorem setReal_of_indexed (errors : ErrorLog) {fmu : FmuInstanceData}
    (indexed : fmu.directIndex = none) (vr : UInt32) (value : Double) :
    setReal errors fmu vr value = setIndexed fmu vr value := by
  simp only [setReal, indexed]

def getReals (errors : ErrorLog) : FmuInstanceData → Request → FmuInstanceData × List Double
  | fmu, [] => (fmu, [])
  | fmu, (vr, value) :: request =>
      let (fmu, value) := getReal errors fmu vr value
      let (fmu, values) := getReals errors fmu request
      (fmu, value :: values)

def setReals (errors : ErrorLog) (fmu : FmuInstanceData) (request : Request) : FmuInstanceData :=
  request.foldl (fun fmu entry => setReal errors fmu entry.1 entry.2) fmu

def fmi2GetReal : FmuInstanceData → Request → FmuInstanceData × List Double :=
  getReals fmi2Errors

def fmi2SetReal : FmuInstanceData → Request → FmuInstanceData := setReals fmi2Errors

def fmi3GetFloat64 : FmuInstanceData → Request → FmuInstanceData × List Double :=
  getReals fmi3Errors

def fmi3SetFloat64 : FmuInstanceData → Request → FmuInstanceData := setReals fmi3Errors

/-- The eight bytes at the reference lie in a map of the size. -/
def Inside (size vr : UInt32) : Prop := vr.toNat + 8 ≤ size.toNat

instance (size vr : UInt32) : Decidable (Inside size vr) := inferInstanceAs (Decidable (_ ≤ _))

/-- What the check of the accessors lets through. -/
def Admitted (size vr : UInt32) : Prop := vr.toNat ≤ size.toNat

instance (size vr : UInt32) : Decidable (Admitted size vr) :=
  inferInstanceAs (Decidable (_ ≤ _))

theorem Inside.admitted {size vr : UInt32} (inside : Inside size vr) : Admitted size vr :=
  Nat.le_trans (Nat.le_add_right _ _) inside

theorem not_admitted_iff {size vr : UInt32} : vr > size ↔ ¬ Admitted size vr := by
  rw [Admitted, Nat.not_le, gt_iff_lt, UInt32.lt_iff_toNat_lt]

section Requests

variable (p : UInt32 → Prop) [DecidablePred p]

/-- The offsets of the entries that pass a test. -/
def accesses (request : Request) : List Nat :=
  (request.filter fun entry => p entry.1).map fun entry => entry.1.toNat

/-- The slots after loading the entries that pass a test. -/
def loads (map : Memory) (request : Request) : List Double :=
  request.map fun entry => if p entry.1 then map.load64 entry.1.toNat else entry.2

/-- The map after storing the entries that pass a test. -/
def stores (map : Memory) (request : Request) : Memory :=
  map.storeAll ((request.filter fun entry => p entry.1).map fun entry =>
    (entry.1.toNat, entry.2))

variable {p} {entry : UInt32 × Double} {request : Request}

theorem accesses_cons_of_pos (h : p entry.1) :
    accesses p (entry :: request) = entry.1.toNat :: accesses p request := by
  simp [accesses, h]

theorem accesses_cons_of_neg (h : ¬ p entry.1) :
    accesses p (entry :: request) = accesses p request := by
  simp [accesses, h]

theorem accesses_append (request more : Request) :
    accesses p (request ++ more) = accesses p request ++ accesses p more := by
  simp [accesses]

theorem stores_append (map : Memory) (request more : Request) :
    stores p map (request ++ more) = stores p (stores p map request) more := by
  simp [stores, Memory.storeAll_append]

theorem loads_cons (map : Memory) :
    loads p map (entry :: request) =
      (if p entry.1 then map.load64 entry.1.toNat else entry.2) :: loads p map request := rfl

theorem stores_cons_of_pos (map : Memory) (h : p entry.1) :
    stores p map (entry :: request) =
      stores p (map.store64 entry.1.toNat entry.2) request := by
  simp [stores, h, Memory.storeAll]

theorem stores_cons_of_neg (map : Memory) (h : ¬ p entry.1) :
    stores p map (entry :: request) = stores p map request := by
  simp [stores, h]

end Requests

/-- The parts of the instance that direct indexing changes. -/
def FmuInstanceData.withDirect (fmu : FmuInstanceData) (logged : List LogMessage)
    (di : DirectIndex) : FmuInstanceData :=
  { fmu with logged, directIndex := some di }

@[simp] theorem withDirect_directIndex (fmu : FmuInstanceData) (logged : List LogMessage)
    (di : DirectIndex) : (fmu.withDirect logged di).directIndex = some di := rfl

@[simp] theorem withDirect_withDirect (fmu : FmuInstanceData) (logged more : List LogMessage)
    (di dj : DirectIndex) :
    (fmu.withDirect logged di).withDirect more dj = fmu.withDirect more dj := rfl

theorem ErrorLog.fmuLog_withDirect (errors : ErrorLog) {fmu : FmuInstanceData} {di : DirectIndex}
    (direct : fmu.directIndex = some di) (status : Nat) (category message : String) :
    ∃ logged, errors.fmuLog fmu status category message = fmu.withDirect logged di := by
  obtain ⟨logged, log⟩ := errors.fmuLog_eq fmu status category message
  exact ⟨logged, by rw [log, FmuInstanceData.withDirect, ← direct]⟩

theorem getReal_direct (errors : ErrorLog) {fmu : FmuInstanceData} {di : DirectIndex}
    (direct : fmu.directIndex = some di) (entry : UInt32 × Double) :
    ∃ logged, getReal errors fmu entry.1 entry.2 =
      (fmu.withDirect logged { di with
        accessed := di.accessed ++ accesses (Admitted di.size) [entry] },
        if Admitted di.size entry.1 then di.map.load64 entry.1.toNat else entry.2) := by
  rw [getReal, direct]
  by_cases admitted : Admitted di.size entry.1
  · have checked : ¬ entry.1 > di.size := fun large => not_admitted_iff.mp large admitted
    refine ⟨fmu.logged, ?_⟩
    simp only [getDirect, if_neg checked, if_pos admitted, accesses_cons_of_pos admitted]
    rfl
  · obtain ⟨logged, log⟩ :=
      errors.fmuLog_withDirect direct errors.error "Error" "Invalid direct index"
    refine ⟨logged, ?_⟩
    simp only [getDirect, if_pos (not_admitted_iff.mpr admitted), if_neg admitted, log,
      accesses_cons_of_neg admitted]
    simp [accesses]

theorem setReal_direct (errors : ErrorLog) {fmu : FmuInstanceData} {di : DirectIndex}
    (direct : fmu.directIndex = some di) (entry : UInt32 × Double) :
    ∃ logged, setReal errors fmu entry.1 entry.2 =
      fmu.withDirect logged { di with
        map := stores (Admitted di.size) di.map [entry]
        accessed := di.accessed ++ accesses (Admitted di.size) [entry] } := by
  rw [setReal, direct]
  by_cases admitted : Admitted di.size entry.1
  · have checked : ¬ entry.1 > di.size := fun large => not_admitted_iff.mp large admitted
    refine ⟨fmu.logged, ?_⟩
    simp only [setDirect, if_neg checked, accesses_cons_of_pos admitted,
      stores_cons_of_pos _ admitted]
    rfl
  · obtain ⟨logged, log⟩ :=
      errors.fmuLog_withDirect direct errors.error "Error" "Invalid direct index"
    refine ⟨logged, ?_⟩
    simp only [setDirect, if_pos (not_admitted_iff.mpr admitted), log,
      accesses_cons_of_neg admitted, stores_cons_of_neg _ admitted]
    simp [accesses, stores, Memory.storeAll]

theorem getReals_direct (errors : ErrorLog) (request : Request) {fmu : FmuInstanceData}
    {di : DirectIndex} (direct : fmu.directIndex = some di) :
    ∃ logged, getReals errors fmu request =
      (fmu.withDirect logged { di with
        accessed := di.accessed ++ accesses (Admitted di.size) request },
        loads (Admitted di.size) di.map request) := by
  induction request generalizing fmu di with
  | nil =>
      refine ⟨fmu.logged, ?_⟩
      simp [getReals, accesses, loads, FmuInstanceData.withDirect, ← direct]
  | cons entry request ih =>
      obtain ⟨_, step⟩ := getReal_direct errors direct entry
      obtain ⟨logged, rest⟩ := ih (withDirect_directIndex ..)
      refine ⟨logged, ?_⟩
      rw [getReals, step]
      dsimp only
      rw [rest, withDirect_withDirect, List.append_assoc, ← accesses_append, loads_cons]
      rfl

theorem setReals_direct (errors : ErrorLog) (request : Request) {fmu : FmuInstanceData}
    {di : DirectIndex} (direct : fmu.directIndex = some di) :
    ∃ logged, setReals errors fmu request =
      fmu.withDirect logged { di with
        map := stores (Admitted di.size) di.map request
        accessed := di.accessed ++ accesses (Admitted di.size) request } := by
  induction request generalizing fmu di with
  | nil =>
      refine ⟨fmu.logged, ?_⟩
      simp [setReals, accesses, stores, Memory.storeAll, FmuInstanceData.withDirect, ← direct]
  | cons entry request ih =>
      obtain ⟨_, step⟩ := setReal_direct errors direct entry
      obtain ⟨logged, rest⟩ := ih (withDirect_directIndex ..)
      refine ⟨logged, ?_⟩
      rw [setReals, List.foldl_cons, ← setReals, step, rest, withDirect_withDirect]
      dsimp only
      rw [List.append_assoc, ← accesses_append, ← stores_append]
      rfl

/-- A getter stays inside the map, loads the entries that lie in it and skips the others. -/
def GetsInside (get : FmuInstanceData → Request → FmuInstanceData × List Double)
    (fmu : FmuInstanceData) (di : DirectIndex) (request : Request) : Prop :=
  ∃ logged accessed,
    (get fmu request).1 =
      fmu.withDirect logged { di with accessed := di.accessed ++ accessed } ∧
    (∀ a ∈ accessed, a + 8 ≤ di.size.toNat) ∧
    (get fmu request).2 = loads (Inside di.size) di.map request

/-- A setter stays inside the map, stores the entries that lie in it and skips the others. -/
def SetsInside (set : FmuInstanceData → Request → FmuInstanceData) (fmu : FmuInstanceData)
    (di : DirectIndex) (request : Request) : Prop :=
  ∃ logged accessed,
    set fmu request = fmu.withDirect logged { di with
      map := stores (Inside di.size) di.map request
      accessed := di.accessed ++ accessed } ∧
    ∀ a ∈ accessed, a + 8 ≤ di.size.toNat

/-- No reference of the request points into the last seven bytes or to the end of the map. -/
def NoneAtEnd (size : UInt32) (request : Request) : Prop :=
  ∀ entry ∈ request, Admitted size entry.1 → Inside size entry.1

theorem accesses_inside_iff {size : UInt32} {request : Request} :
    (∀ a ∈ accesses (Admitted size) request, a + 8 ≤ size.toNat) ↔ NoneAtEnd size request := by
  simp only [accesses, NoneAtEnd, List.mem_map, List.mem_filter, decide_eq_true_eq]
  constructor
  · intro bounded entry member admitted
    exact bounded _ ⟨entry, ⟨member, admitted⟩, rfl⟩
  · rintro none_at_end _ ⟨entry, ⟨member, admitted⟩, rfl⟩
    exact none_at_end entry member admitted

/-- Then the check admits exactly the references that lie in the map. -/
theorem NoneAtEnd.admitted_iff {size : UInt32} {request : Request}
    (none_at_end : NoneAtEnd size request) {entry : UInt32 × Double} (member : entry ∈ request) :
    Admitted size entry.1 ↔ Inside size entry.1 :=
  ⟨none_at_end entry member, Inside.admitted⟩

theorem getReals_inside_iff (errors : ErrorLog) {fmu : FmuInstanceData} {di : DirectIndex}
    (direct : fmu.directIndex = some di) (request : Request) :
    GetsInside (getReals errors) fmu di request ↔ NoneAtEnd di.size request := by
  obtain ⟨logged, result⟩ := getReals_direct errors request direct
  rw [← accesses_inside_iff, GetsInside, result]
  constructor
  · rintro ⟨_, accessed, same, bounded, _⟩
    have recorded := congrArg FmuInstanceData.directIndex same
    simp only [withDirect_directIndex, Option.some.injEq, DirectIndex.mk.injEq,
      List.append_cancel_left_eq, true_and] at recorded
    rwa [recorded]
  · intro bounded
    refine ⟨logged, _, rfl, bounded, ?_⟩
    refine List.map_congr_left fun entry member => ?_
    simp only [(accesses_inside_iff.mp bounded).admitted_iff member]

theorem setReals_inside_iff (errors : ErrorLog) {fmu : FmuInstanceData} {di : DirectIndex}
    (direct : fmu.directIndex = some di) (request : Request) :
    SetsInside (setReals errors) fmu di request ↔ NoneAtEnd di.size request := by
  obtain ⟨logged, result⟩ := setReals_direct errors request direct
  rw [← accesses_inside_iff, SetsInside, result]
  constructor
  · rintro ⟨_, accessed, same, bounded⟩
    have recorded := congrArg FmuInstanceData.directIndex same
    simp only [withDirect_directIndex, Option.some.injEq, DirectIndex.mk.injEq,
      List.append_cancel_left_eq, true_and] at recorded
    rwa [recorded.2]
  · intro bounded
    have same : stores (Admitted di.size) di.map request =
        stores (Inside di.size) di.map request := by
      rw [stores, stores]
      congr 2
      refine List.filter_congr fun entry member => ?_
      simp only [(accesses_inside_iff.mp bounded).admitted_iff member]
    exact ⟨logged, _, by rw [same], bounded⟩

/-- The accessors keep to the map exactly when no reference points past its last full value
without pointing past its end. -/
theorem direct_index_bounds_iff {fmu : FmuInstanceData} {di : DirectIndex}
    (direct : fmu.directIndex = some di) (request : Request) :
    (GetsInside fmi2GetReal fmu di request ↔ NoneAtEnd di.size request) ∧
      (SetsInside fmi2SetReal fmu di request ↔ NoneAtEnd di.size request) ∧
      (GetsInside fmi3GetFloat64 fmu di request ↔ NoneAtEnd di.size request) ∧
      (SetsInside fmi3SetFloat64 fmu di request ↔ NoneAtEnd di.size request) :=
  ⟨getReals_inside_iff _ direct request, setReals_inside_iff _ direct request,
    getReals_inside_iff _ direct request, setReals_inside_iff _ direct request⟩

def oneValueMap : DirectIndex := ⟨fun _ => 0, 8, []⟩

theorem direct_index_bounds_oneValueMap :
    let fmu := { FmuInstanceData.null with directIndex := some oneValueMap }
    let request : Request := [(0, 1), (100, 2)]
    (GetsInside fmi2GetReal fmu oneValueMap request ↔ NoneAtEnd 8 request) ∧
      (SetsInside fmi2SetReal fmu oneValueMap request ↔ NoneAtEnd 8 request) ∧
      (GetsInside fmi3GetFloat64 fmu oneValueMap request ↔ NoneAtEnd 8 request) ∧
      (SetsInside fmi3SetFloat64 fmu oneValueMap request ↔ NoneAtEnd 8 request) :=
  direct_index_bounds_iff rfl _

/-- The reference 8 is the end of the map; the eight bytes from there are read and written. -/
theorem direct_index_overrun :
    let fmu := { FmuInstanceData.null with directIndex := some oneValueMap }
    let request : Request := [(8, 1)]
    ¬ GetsInside fmi2GetReal fmu oneValueMap request ∧
      ¬ SetsInside fmi2SetReal fmu oneValueMap request ∧
      ¬ GetsInside fmi3GetFloat64 fmu oneValueMap request ∧
      ¬ SetsInside fmi3SetFloat64 fmu oneValueMap request := by
  have at_end : ¬ NoneAtEnd oneValueMap.size [(8, 1)] := fun none_at_end =>
    absurd (none_at_end (8, 1) (by simp) (by decide)) (by decide)
  exact ⟨(getReals_inside_iff _ rfl _).not.mpr at_end, (setReals_inside_iff _ rfl _).not.mpr at_end,
    (getReals_inside_iff _ rfl _).not.mpr at_end, (setReals_inside_iff _ rfl _).not.mpr at_end⟩

end DseFmi.Fmu
