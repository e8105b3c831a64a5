import DseFmi.Library.Layout
import DseFmi.Library.RunLength
import DseFmi.Mcl.Parser

/-!
# The marshal table

One pass over the sorted signals emits a marshal group whenever the kind, direction or
type changes. The groups are the runs of equal keys, placed one after the other in the
source vector, and each carries the value references of its own run.
-/

namespace DseFmi.Mcl

open DseFmi.Library

def allocateSource (m : FmuModel) : FmuModel :=
  let count := m.signals.length
  let data : FmuData :=
    { m.data with
      count := count
      name := m.signals.map FmuSignal.name
      scalar := List.replicate count 0
      binaryLen := List.replicate count 0
      kind := m.signals.map FmuSignal.variableKind }
  let source : MclSource :=
    { count := data.count
      signal := data.name
      scalar := data.scalar
      binaryLen := data.binaryLen
      kind := data.kind }
  { m with data := data, mcl := { m.mcl with source := source } }

/-- `none` stands for the failing assertion on the length of the reference list. -/
def createMg (kind : MarshalKind) (dir : MarshalDir) (type : MarshalType) (count offset : Nat)
    (refList : List UInt32) : Option MarshalGroup :=
  if count = refList.length then
    some
      { kind, dir, type, count
        target :=
          { ref := refList
            binaryLen := if kind = .binary then some (List.replicate count 0) else none }
        sourceOffset := offset
        functions :=
          { stringEncode := if kind = .binary then some (List.replicate count none) else none
            stringDecode := if kind = .binary then some (List.replicate count none) else none } }
  else none

structure MarshalScan where
  mgList : List MarshalGroup
  offset : Nat
  count : Nat
  refList : List UInt32
  kind : MarshalKind
  dir : MarshalDir
  type : MarshalType
  deriving DecidableEq, Repr

def MarshalScan.init : MarshalScan := ⟨[], 0, 0, [], .none, .none, .none⟩

/-- Append the group being accumulated; its reference list is cleared. -/
def MarshalScan.emit (scan : MarshalScan) : Option MarshalScan :=
  if scan.count ≠ 0 then do
    let mg ← createMg scan.kind scan.dir scan.type scan.count scan.offset scan.refList
    some { scan with mgList := scan.mgList ++ [mg], refList := [] }
  else some scan

def MarshalScan.step (scan : MarshalScan) (s : FmuSignal) : Option MarshalScan :=
  if scan.kind ≠ s.variableKind ∨ scan.dir ≠ s.variableDir ∨ scan.type ≠ s.variableType then do
    let emitted ← scan.emit
    some
      { emitted with
        offset := scan.offset + scan.count
        kind := s.variableKind
        dir := s.variableDir
        type := s.variableType
        count := 1
        refList := emitted.refList ++ [s.variableVref] }
  else
    some { scan with count := scan.count + 1, refList := scan.refList ++ [s.variableVref] }

def generateMarshalTable (m : FmuModel) : Option FmuModel := do
  let scan ← m.signals.foldlM MarshalScan.step .init
  let scan ← scan.emit
  some { m with data := { m.data with mgTable := scan.mgList } }

def blockSize (b : MarshalKey × List FmuSignal) : Nat := b.2.length

def blockGroup (b : Nat × MarshalKey × List FmuSignal) : MarshalGroup where
  kind := b.2.1.kind
  dir := b.2.1.dir
  type := b.2.1.type
  count := b.2.2.length
  target :=
    { ref := b.2.2.map FmuSignal.variableVref
      binaryLen :=
        if b.2.1.kind = .binary then some (List.replicate b.2.2.length 0) else none }
  sourceOffset := b.1
  functions :=
    { stringEncode :=
        if b.2.1.kind = .binary then some (List.replicate b.2.2.length none) else none
      stringDecode :=
        if b.2.1.kind = .binary then some (List.replicate b.2.2.length none) else none }

/-- The local variables that correspond to a state of the run length pass. -/
def scanOf (r : Runs FmuSignal MarshalKey) : MarshalScan where
  mgList := (place blockSize 0 r.emitted).map blockGroup
  offset := extent blockSize r.emitted
  count := r.pending.length
  refList := r.pending.map FmuSignal.variableVref
  kind := r.key.kind
  dir := r.key.dir
  type := r.key.type

theorem scanOf_start : scanOf (.start ⟨.none, .none, .none⟩) = .init := rfl

theorem createMg_block (key : MarshalKey) (offset : Nat) (signals : List FmuSignal) :
    createMg key.kind key.dir key.type signals.length offset
        (signals.map FmuSignal.variableVref) = some (blockGroup (offset, key, signals)) := by
  simp [createMg, blockGroup]

theorem scanOf_emit (r : Runs FmuSignal MarshalKey) :
    (scanOf r).emit = some { scanOf r with
      mgList := (place blockSize 0 r.flush).map blockGroup
      refList := [] } := by
  by_cases empty : r.pending = []
  · simp [MarshalScan.emit, scanOf, Runs.flush, empty]
  · have created := createMg_block r.key (extent blockSize r.emitted) r.pending
    simp [MarshalScan.emit, scanOf, Runs.flush, empty, created, place_append, place]

theorem extent_flush (r : Runs FmuSignal MarshalKey) :
    extent blockSize r.flush = extent blockSize r.emitted + r.pending.length := by
  by_cases empty : r.pending = []
  · simp [Runs.flush, empty]
  · simp [Runs.flush, empty, blockSize]

theorem scanOf_step (r : Runs FmuSignal MarshalKey) (s : FmuSignal) :
    (scanOf r).step s = some (scanOf (r.step FmuSignal.key s)) := by
  by_cases same : r.key = s.key
  · simp [MarshalScan.step, scanOf, Runs.step, same, FmuSignal.key]
  · have changed : (scanOf r).kind ≠ s.variableKind ∨ (scanOf r).dir ≠ s.variableDir ∨
        (scanOf r).type ≠ s.variableType := by
      by_contra unchanged
      simp only [not_or, not_not] at unchanged
      obtain ⟨kind, dir, type⟩ := unchanged
      exact same (by cases hk : r.key; simp_all [scanOf, FmuSignal.key])
    rw [MarshalScan.step, if_pos changed, scanOf_emit, Runs.step, if_neg same]
    simp [scanOf, extent_flush, FmuSignal.key]

theorem scanOf_foldl (signals : List FmuSignal) (r : Runs FmuSignal MarshalKey) :
    signals.foldlM MarshalScan.step (scanOf r) =
      some (scanOf (signals.foldl (Runs.step FmuSignal.key) r)) := by
  induction signals generalizing r with
  | nil => rfl
  | cons s signals ih =>
      rw [List.foldlM_cons, scanOf_step]
      exact ih _

/-- The runs of the signals with their places in the source vector. -/
def marshalBlocks (signals : List FmuSignal) : List (Nat × MarshalKey × List FmuSignal) :=
  place blockSize 0 (runs FmuSignal.key ⟨.none, .none, .none⟩ signals)

/-- The table is built for every list of signals: no assertion fails. -/
theorem generateMarshalTable_eq (m : FmuModel) :
    generateMarshalTable m = some { m with
      data := { m.data with mgTable := (marshalBlocks m.signals).map blockGroup } } := by
  rw [generateMarshalTable, ← scanOf_start, scanOf_foldl]
  simp only [Option.bind_eq_bind, Option.bind_some, scanOf_emit]
  rfl

/-- The order in which `fmimclParse` leaves the signals it has read. -/
structure MarshalSorted (header : MarshalHeader) (parsed signals : List FmuSignal) : Prop where
  perm : signals.Perm parsed
  ordered : signals.Pairwise fun s t => s.key = t.key ∨ MarshalBefore header s.key t.key
  stable : ∀ key, (signals.filter fun s => s.key = key) = parsed.filter fun s => s.key = key

theorem sortByMarshalGroup_sorted (header : MarshalHeader) (parsed : List FmuSignal) :
    MarshalSorted header parsed (sortByMarshalGroup header parsed) where
  perm := sortByMarshalGroup_perm header parsed
  ordered := sortByMarshalGroup_ordered header parsed
  stable := sortByMarshalGroup_stable header parsed

/-- Entry `i` of a group is the signal at `sourceOffset + i`, and refers to its variable. -/
structure MarshalEntry (m : FmuModel) (mg : MarshalGroup) (i : Nat) (s : FmuSignal) : Prop where
  source : m.signals[mg.sourceOffset + i]? = some s
  ref : mg.target.ref[i]? = some s.variableVref
  key : s.key = mg.key

/-- The groups are consecutive blocks that cover the source vector, one for each key. -/
structure MarshalPartition (m : FmuModel) : Prop where
  nonempty : ∀ mg ∈ m.data.mgTable, 0 < mg.count
  offset : ∀ i mg, m.data.mgTable[i]? = some mg →
    mg.sourceOffset = ((m.data.mgTable.take i).map MarshalGroup.count).sum
  total : (m.data.mgTable.map MarshalGroup.count).sum = m.data.count
  count : m.data.count = m.signals.length
  distinct : (m.data.mgTable.map MarshalGroup.key).Nodup
  grouped : ∀ s ∈ m.signals, ∃ mg ∈ m.data.mgTable, mg.key = s.key
  refs : ∀ mg ∈ m.data.mgTable, mg.target.ref.length = mg.count
  entry : ∀ mg ∈ m.data.mgTable, ∀ i < mg.count, ∃ s, MarshalEntry m mg i s

theorem counts_blockGroup (bs : List (Nat × MarshalKey × List FmuSignal)) :
    (bs.map blockGroup).map MarshalGroup.count = (bs.map Prod.snd).map blockSize := by
  simp [Function.comp_def, blockGroup, blockSize]

section Blocks

variable {signals : List FmuSignal} {b : Nat × MarshalKey × List FmuSignal}

theorem marshalBlocks_isRun (hb : b ∈ marshalBlocks signals) : IsRun FmuSignal.key b.2 := by
  have member : b.2 ∈ (marshalBlocks signals).map Prod.snd := List.mem_map_of_mem hb
  rw [marshalBlocks, place_map_snd] at member
  exact isRun_of_mem_runs member

theorem marshalBlocks_runs (signals : List FmuSignal) :
    (marshalBlocks signals).map (fun b => b.2.2) =
      (runs FmuSignal.key ⟨.none, .none, .none⟩ signals).map Prod.snd := by
  rw [← place_map_snd blockSize 0 (runs _ _ _), List.map_map]
  rfl

theorem marshalBlocks_flatten (signals : List FmuSignal) :
    ((marshalBlocks signals).map fun b => b.2.2).flatten = signals := by
  rw [marshalBlocks_runs, runs_flatten]

theorem marshalBlocks_source (hb : b ∈ marshalBlocks signals) {i : Nat} (hi : i < b.2.2.length) :
    signals[b.1 + i]? = b.2.2[i]? := by
  have placed : (b.1, b.2.2) ∈ place List.length 0
      ((runs FmuSignal.key ⟨.none, .none, .none⟩ signals).map Prod.snd) := by
    rw [place_map]
    exact List.mem_map_of_mem hb
  have found := place_flatten placed i hi
  rwa [runs_flatten] at found

/-- Different blocks carry different keys when the signals are ordered by any order. -/
theorem marshalBlocks_distinct {r : MarshalKey → MarshalKey → Prop} [IsTrans MarshalKey r]
    [Std.Irrefl r] (ordered : signals.Pairwise fun s t => s.key = t.key ∨ r s.key t.key) :
    ((marshalBlocks signals).map fun b => b.2.1).Nodup := by
  have keys := runs_pairwise ⟨.none, .none, .none⟩ ordered
  rw [← place_map_snd blockSize 0 (runs _ _ _)] at keys
  refine List.pairwise_map.mpr ((List.pairwise_map.mp keys).imp ?_)
  intro b c related equal
  exact Std.Irrefl.irrefl (r := r) _ (equal ▸ related)

theorem extent_runs (signals : List FmuSignal) :
    extent blockSize (runs FmuSignal.key ⟨.none, .none, .none⟩ signals) = signals.length := by
  have covered := congrArg List.length (runs_flatten FmuSignal.key ⟨.none, .none, .none⟩ signals)
  rw [List.length_flatten, List.map_map] at covered
  exact covered

theorem marshalBlocks_cover {j : Nat} (hj : j < signals.length) :
    ∃ b ∈ marshalBlocks signals, b.1 ≤ j ∧ j < b.1 + b.2.2.length :=
  exists_place_of_lt _ _ (Nat.zero_le j) (by rwa [extent_runs, Nat.zero_add])

variable (m : FmuModel)

/-- Sources allocated and table generated, as the life-cycle leaves the model. -/
def FmuModel.tabled : FmuModel :=
  { allocateSource m with
    data := { (allocateSource m).data with mgTable := (marshalBlocks m.signals).map blockGroup } }

theorem generateMarshalTable_allocateSource :
    generateMarshalTable (allocateSource m) = some m.tabled :=
  generateMarshalTable_eq (allocateSource m)

/-- The groups partition the source vector whenever the signals are ordered. -/
theorem FmuModel.tabled_partition {r : MarshalKey → MarshalKey → Prop} [IsTrans MarshalKey r]
    [Std.Irrefl r] (ordered : m.signals.Pairwise fun s t => s.key = t.key ∨ r s.key t.key) :
    MarshalPartition m.tabled where
  nonempty := by
    intro mg hmg
    obtain ⟨b, hb, rfl⟩ := List.mem_map.mp hmg
    exact List.length_pos_iff.mpr (marshalBlocks_isRun hb).nonempty
  offset := by
    intro i mg hmg
    simp only [tabled, List.getElem?_map] at hmg
    obtain ⟨b, hb, rfl⟩ := Option.map_eq_some_iff.mp hmg
    rw [tabled, ← List.map_take, counts_blockGroup, List.map_take, marshalBlocks, place_map_snd]
    rw [marshalBlocks, place_getElem?] at hb
    obtain ⟨x, _, rfl⟩ := Option.map_eq_some_iff.mp hb
    simp [blockGroup, extent]
  total := by
    rw [tabled, counts_blockGroup, marshalBlocks, place_map_snd]
    exact extent_runs m.signals
  count := rfl
  distinct := by
    have distinct := marshalBlocks_distinct ordered
    simpa [tabled, Function.comp_def, blockGroup, MarshalGroup.key] using distinct
  grouped := by
    intro s hs
    rw [tabled, allocateSource, ← marshalBlocks_flatten m.signals] at hs
    obtain ⟨ss, hss, hs⟩ := List.mem_flatten.mp hs
    obtain ⟨b, hb, rfl⟩ := List.mem_map.mp hss
    exact ⟨blockGroup b, List.mem_map_of_mem hb, ((marshalBlocks_isRun hb).tagged s hs).symm⟩
  refs := by
    intro mg hmg
    obtain ⟨b, _, rfl⟩ := List.mem_map.mp hmg
    simp [blockGroup]
  entry := by
    intro mg hmg i hi
    obtain ⟨b, hb, rfl⟩ := List.mem_map.mp hmg
    refine ⟨b.2.2[i], ?_, ?_, ?_⟩
    · exact (marshalBlocks_source hb hi).trans (List.getElem?_eq_getElem hi)
    · simp [blockGroup, List.getElem?_eq_getElem hi]
    · exact (marshalBlocks_isRun hb).tagged _ (List.getElem_mem hi)

end Blocks

/-- The parser's sort, the allocation of the sources and the generation of the table. -/
def marshalModel (header : MarshalHeader) (parsed : List FmuSignal) (m : FmuModel) :
    Option FmuModel :=
  generateMarshalTable (allocateSource (m.storeSignals header parsed))

/-- The signals are sorted stably and the marshal table partitions them. -/
theorem marshalModel_table (header : MarshalHeader) (parsed : List FmuSignal) (m : FmuModel) :
    ∃ built, marshalModel header parsed m = some built ∧
      MarshalSorted header parsed built.signals ∧ MarshalPartition built := by
  have sorted := sortByMarshalGroup_sorted header parsed
  refine ⟨_, generateMarshalTable_allocateSource _, sorted, ?_⟩
  exact FmuModel.tabled_partition (m.storeSignals header parsed) sorted.ordered

end DseFmi.Mcl
