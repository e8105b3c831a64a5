import Mathlib.Data.Prod.Basic
import DseFmi.Library.BucketSort
import DseFmi.Mcl.FmuModel

/-!
# Parsing of FMU signals

The signals of the matched signal groups are collected in document order and then
sorted by marshal group. The sort counts through kinds, types and directions and
appends the matching signals on every round.
-/

namespace DseFmi.Mcl

open DseFmi.Library

structure SignalAnnotations where
  fmiVariableVref : Option UInt32
  fmiVariableName : Option String
  fmiVariableType : Option String
  fmiVariableCausality : Option String
  binaryToTextEncoding : Option String
  deriving DecidableEq, Repr

structure SignalNode where
  signal : Option String
  annotations : SignalAnnotations
  deriving DecidableEq, Repr

def decodeVarKind : Option String → MarshalKind
  | none => .none
  | some t =>
      if t = "Real" then .primitive
      else if t = "Integer" then .primitive
      else if t = "Boolean" then .primitive
      else if t = "String" then .binary
      else .none

def decodeVarType : Option String → MarshalType
  | none => .none
  | some t =>
      if t = "Real" then .double
      else if t = "Integer" then .int32
      else if t = "Boolean" then .bool
      else if t = "String" then .string
      else .none

def decodeVarDir : Option String → MarshalDir
  | none => .txrx
  | some t =>
      if t = "input" then .txonly
      else if t = "output" then .rxonly
      else if t = "inout" then .txrx
      else if t = "parameter" then .parameter
      else if t = "local" then .local
      else .none

def fmuSignalGenerator (data : SignalNode) : Option FmuSignal :=
  data.signal.map fun name =>
    { name
      variableVref := data.annotations.fmiVariableVref.getD 0
      variableName := data.annotations.fmiVariableName
      variableKind := decodeVarKind data.annotations.fmiVariableType
      variableDir := decodeVarDir data.annotations.fmiVariableCausality
      variableType := decodeVarType data.annotations.fmiVariableType
      variableAnnotationEncoding := data.annotations.binaryToTextEncoding }

/-- Enumeration ends with the list or at the first entry that is not a signal. -/
def variableMatchHandler : List SignalNode → List FmuSignal
  | [] => []
  | node :: nodes =>
      match fmuSignalGenerator node with
      | none => []
      | some s => s :: variableMatchHandler nodes

/-- What the parser reads: the `Model` document, with the step size by its bits, and the matching
signal group of either channel. -/
structure FmuYaml where
  modelName : Option String
  mclAdapter : Option String
  mclVersion : Option String
  fmiModelCosim : Bool
  fmiModelVersion : Option String
  fmiStepsize : Option UInt64
  fmiGuid : Option String
  fmiResourceDir : Option String
  path : Option String
  signalVector : Option (List SignalNode)
  networkVector : Option (List SignalNode)
  deriving DecidableEq, Repr

def modelMatchHandler (doc : FmuYaml) (m : FmuModel) : FmuModel :=
  { m with
    mcl :=
      { m.mcl with
        adapter := doc.mclAdapter
        version := doc.mclVersion
        stepSize := doc.fmiStepsize.getD m.mcl.stepSize }
    cosim := doc.fmiModelCosim
    version := doc.fmiModelVersion
    guid := doc.fmiGuid
    resourceDir := doc.fmiResourceDir.getD "/tmp"
    path := doc.path }

def parsedSignals (doc : FmuYaml) : List FmuSignal :=
  (doc.signalVector.map variableMatchHandler).getD [] ++
    (doc.networkVector.map variableMatchHandler).getD []

def mDirOrder : List MarshalDir := [.none, .local, .rxonly, .txrx, .txonly, .parameter]

theorem mDirOrder_nodup : mDirOrder.Nodup := by decide

theorem mem_mDirOrder (dir : MarshalDir) : dir ∈ mDirOrder := by cases dir <;> decide

def sortByMarshalGroup (header : MarshalHeader) (signalList : List FmuSignal) :
    List FmuSignal :=
  header.kinds.flatMap fun kind =>
    header.types.flatMap fun type =>
      mDirOrder.flatMap fun dir =>
        signalList.filter fun s =>
          s.variableKind = kind ∧ s.variableDir = dir ∧ s.variableType = type

/-- The last part of `fmimclParse`: sort, and convert to a `NULL` terminated list. -/
def FmuModel.storeSignals (header : MarshalHeader) (signalList : List FmuSignal)
    (m : FmuModel) : FmuModel :=
  { m with signals := sortByMarshalGroup header signalList }

def fmimclParse (header : MarshalHeader) (doc : FmuYaml) (m : FmuModel) : FmuModel :=
  (modelMatchHandler doc m).storeSignals header (parsedSignals doc)

def sortKey (key : MarshalKey) : MarshalKind × MarshalType × MarshalDir :=
  (key.kind, key.type, key.dir)

theorem sortKey_injective : Function.Injective sortKey := by
  rintro ⟨kind, dir, type⟩ ⟨kind', dir', type'⟩ equal
  simp only [sortKey, Prod.mk.injEq] at equal
  obtain ⟨rfl, rfl, rfl⟩ := equal
  rfl

@[simp] theorem sortKey_inj {a b : MarshalKey} : sortKey a = sortKey b ↔ a = b :=
  sortKey_injective.eq_iff

def sortKeys (header : MarshalHeader) : List (MarshalKind × MarshalType × MarshalDir) :=
  header.kinds ×ˢ (header.types ×ˢ mDirOrder)

theorem sortKeys_nodup (header : MarshalHeader) : (sortKeys header).Nodup :=
  header.kinds_nodup.product (header.types_nodup.product mDirOrder_nodup)

theorem mem_sortKeys (header : MarshalHeader) (key : MarshalKind × MarshalType × MarshalDir) :
    key ∈ sortKeys header := by
  obtain ⟨kind, type, dir⟩ := key
  simp [sortKeys, header.kinds_complete, header.types_complete, mem_mDirOrder]

/-- Kinds first, then types, then directions in the order of `mDirOrder`. -/
def MarshalBefore (header : MarshalHeader) (a b : MarshalKey) : Prop :=
  Prod.Lex (Before header.kinds) (Prod.Lex (Before header.types) (Before mDirOrder))
    (sortKey a) (sortKey b)

instance (header : MarshalHeader) : IsTrans MarshalKey (MarshalBefore header) :=
  ⟨fun _ _ _ => IsTrans.trans (r := Prod.Lex (Before header.kinds)
    (Prod.Lex (Before header.types) (Before mDirOrder))) _ _ _⟩

instance (header : MarshalHeader) : Std.Irrefl (MarshalBefore header) :=
  ⟨fun key => Std.Irrefl.irrefl (r := Prod.Lex (Before header.kinds)
    (Prod.Lex (Before header.types) (Before mDirOrder))) (sortKey key)⟩

theorem sortByMarshalGroup_eq (header : MarshalHeader) (signalList : List FmuSignal) :
    sortByMarshalGroup header signalList =
      bucketSort (sortKeys header) (fun s => sortKey s.key) signalList := by
  simp only [sortByMarshalGroup, bucketSort, sortKeys, SProd.sprod, List.product,
    List.flatMap_assoc, List.flatMap_map, sortKey, FmuSignal.key, Prod.mk.injEq]
  simp only [and_comm, and_left_comm]

theorem sortByMarshalGroup_perm (header : MarshalHeader) (signalList : List FmuSignal) :
    (sortByMarshalGroup header signalList).Perm signalList := by
  rw [sortByMarshalGroup_eq]
  exact bucketSort_perm (sortKeys_nodup header) fun _ _ => mem_sortKeys header _

theorem sortByMarshalGroup_ordered (header : MarshalHeader) (signalList : List FmuSignal) :
    (sortByMarshalGroup header signalList).Pairwise fun s t =>
      s.key = t.key ∨ MarshalBefore header s.key t.key := by
  rw [sortByMarshalGroup_eq]
  have keys := pairwise_product (pairwise_before header.kinds_nodup)
    (pairwise_product (pairwise_before header.types_nodup) (pairwise_before mDirOrder_nodup))
  have sorted := bucketSort_pairwise keys (fun s : FmuSignal => sortKey s.key) signalList
  simp only [sortKey_inj] at sorted
  exact sorted

theorem sortByMarshalGroup_stable (header : MarshalHeader) (signalList : List FmuSignal)
    (key : MarshalKey) :
    ((sortByMarshalGroup header signalList).filter fun s => s.key = key) =
      signalList.filter fun s => s.key = key := by
  rw [sortByMarshalGroup_eq]
  simpa using bucketSort_stable (sortKeys_nodup header) (mem_sortKeys header (sortKey key))
    (fun s : FmuSignal => sortKey s.key) signalList

end DseFmi.Mcl
