import Mathlib.Algebra.GroupWithZero.Nat
import Mathlib.Data.List.Nodup
import Mathlib.Tactic.Common

/-!
# Marshal groups

The enumerations and the `MarshalGroup` of the marshalling interface. The numeric
values of the enumerators belong to the header that declares them; the program
only relies on counting through all of them in ascending order.
-/

namespace DseFmi.Mcl

inductive MarshalKind where
  | none
  | primitive
  | binary
  deriving DecidableEq, Repr

inductive MarshalDir where
  | none
  | txrx
  | rxonly
  | txonly
  | parameter
  | local
  deriving DecidableEq, Repr

inductive MarshalType where
  | none
  | uint8
  | uint16
  | uint32
  | uint64
  | int8
  | int16
  | int32
  | int64
  | float
  | double
  | byte1
  | byte2
  | byte4
  | byte8
  | bool
  | string
  deriving DecidableEq, Repr

/-- The enumerators that `0 ≤ kind < __MARSHAL_KIND_SIZE__` and
`0 ≤ type < __MARSHAL_TYPE_SIZE__` run through, in ascending order. -/
structure MarshalHeader where
  kinds : List MarshalKind
  types : List MarshalType
  kinds_nodup : kinds.Nodup
  types_nodup : types.Nodup
  kinds_complete : ∀ kind, kind ∈ kinds
  types_complete : ∀ type, type ∈ types

/-- The values the group names of the engine's tests (`mg-1-2-7`, `mg-2-3-16`) are made of. -/
def marshalHeader : MarshalHeader where
  kinds := [.none, .primitive, .binary]
  types := [.none, .uint8, .uint16, .uint32, .uint64, .int8, .int16, .int32, .int64, .float,
    .double, .byte1, .byte2, .byte4, .byte8, .bool, .string]
  kinds_nodup := by decide
  types_nodup := by decide
  kinds_complete := by rintro (_ | _ | _) <;> decide
  types_complete := by intro type; cases type <;> decide

/-- Kind, direction and type: what a marshal group has in common. -/
structure MarshalKey where
  kind : MarshalKind
  dir : MarshalDir
  type : MarshalType
  deriving DecidableEq, Repr

inductive StringEncode where
  | dseAscii85Encode
  deriving DecidableEq, Repr

inductive StringDecode where
  | dseAscii85Decode
  deriving DecidableEq, Repr

structure MarshalTarget where
  ref : List UInt32
  binaryLen : Option (List UInt32)
  deriving DecidableEq, Repr

/-- The tables exist for groups of binary kind only; an entry is `NULL` until installed. -/
structure MarshalFunctions where
  stringEncode : Option (List (Option StringEncode))
  stringDecode : Option (List (Option StringDecode))
  deriving DecidableEq, Repr

/-- A block of `count` entries of the source vector, starting at `sourceOffset`. -/
structure MarshalGroup where
  kind : MarshalKind
  dir : MarshalDir
  type : MarshalType
  count : Nat
  target : MarshalTarget
  sourceOffset : Nat
  functions : MarshalFunctions
  deriving DecidableEq, Repr

def MarshalGroup.key (mg : MarshalGroup) : MarshalKey := ⟨mg.kind, mg.dir, mg.type⟩

end DseFmi.Mcl
