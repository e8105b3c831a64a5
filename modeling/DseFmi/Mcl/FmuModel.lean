import DseFmi.Mcl.Marshal

/-!
# The FMU model descriptor

Lists stand for the `NULL` terminated lists of the descriptor, the empty list for a
list that is not allocated yet. The source vector is shared between the descriptor and
the marshal groups, so a group refers to it by its offset only.
-/

namespace DseFmi.Mcl

structure FmuSignal where
  name : String
  variableVref : UInt32
  variableName : Option String
  variableKind : MarshalKind
  variableDir : MarshalDir
  variableType : MarshalType
  variableAnnotationEncoding : Option String
  deriving DecidableEq, Repr

def FmuSignal.key (s : FmuSignal) : MarshalKey := ⟨s.variableKind, s.variableDir, s.variableType⟩

/-- The signal storage. A scalar is given by its bits; a binary shares its entry. -/
structure MclSource where
  count : Nat
  signal : List String
  scalar : List UInt64
  binaryLen : List UInt32
  kind : List MarshalKind
  deriving DecidableEq, Repr

def MclSource.null : MclSource := ⟨0, [], [], [], []⟩

structure FmuData where
  count : Nat
  name : List String
  scalar : List UInt64
  binaryLen : List UInt32
  kind : List MarshalKind
  mgTable : List MarshalGroup
  deriving DecidableEq, Repr

def FmuData.null : FmuData := ⟨0, [], [], [], [], []⟩

inductive MclVTable where
  | fmi2
  deriving DecidableEq, Repr

structure MclDesc where
  adapter : Option String
  version : Option String
  stepSize : UInt64
  source : MclSource
  vtable : Option MclVTable
  deriving DecidableEq, Repr

/-- Functions are found by name in the loaded library; a missing one is `NULL`. -/
structure Fmi2Adapter where
  fmi2Inst : Option Nat
  vtable : List (Option String)
  deriving DecidableEq, Repr

structure MdfChannelGroup where
  signal : List String
  scalar : List UInt64
  count : Nat
  deriving DecidableEq, Repr

structure Measurement where
  fileName : Option String
  cg : Option MdfChannelGroup
  deriving DecidableEq, Repr

structure FmuModel where
  mcl : MclDesc
  name : Option String
  version : Option String
  cosim : Bool
  guid : Option String
  resourceDir : String
  path : Option String
  signals : List FmuSignal
  adapter : Option Fmi2Adapter
  data : FmuData
  measurement : Measurement
  deriving DecidableEq, Repr

def FmuModel.null : FmuModel where
  mcl := ⟨none, none, 0, .null, none⟩
  name := none
  version := none
  cosim := false
  guid := none
  resourceDir := ""
  path := none
  signals := []
  adapter := none
  data := .null
  measurement := ⟨none, none⟩

end DseFmi.Mcl
