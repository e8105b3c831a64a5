import Mathlib.Algebra.GroupWithZero.Nat
import Mathlib.Data.List.AList

/-!
# Signal groups and their annotations

An annotation holds a value of any YAML type. Reading one at another type than its own,
or through a pointer that is `nil`, ends the program.
-/

namespace DseFmi.Generate

abbrev Float64 := BitVec 64

/-- The value of an interface; `other` stands for the types nothing looks at. -/
inductive Value where
  | null
  | string (s : String)
  | int (n : Int)
  | float64 (x : Float64)
  | ints (ns : List Int)
  | list (items : List Value)
  | map (entries : List (String × Value))
  | other

abbrev Annotations := AList fun _ : String => Value

inductive Panic where
  | nilDereference
  | interfaceConversion
  deriving DecidableEq, Repr

abbrev Go := Except Panic

structure Signal where
  signal : String
  annotations : Option Annotations

structure ObjectMetadata where
  name : Option String
  annotations : Option Annotations
  labels : Option (AList fun _ : String => String)

structure SignalGroup where
  metadata : Option ObjectMetadata
  signals : List Signal

structure Channel where
  name : Option String
  aliasName : Option String
  selectors : Option (AList fun _ : String => String)

def deref {α : Type} : Option α → Go α
  | some x => .ok x
  | none => .error .nilDereference

/-- A missing key and a `null` are both `nil`. -/
def Annotations.get (annotations : Annotations) (k : String) : Option Value :=
  match annotations.lookup k with
  | some .null => none
  | value => value

theorem get_insert_self (anns : Annotations) (k : String) {value : Value} (given : value ≠ .null) :
    Annotations.get (anns.insert k value) k = some value := by
  rw [Annotations.get, AList.lookup_insert]
  cases value <;> first | rfl | exact absurd rfl given

theorem get_insert_ne (anns : Annotations) {k l : String} (value : Value) (different : k ≠ l) :
    Annotations.get (anns.insert l value) k = anns.get k := by
  rw [Annotations.get, AList.lookup_insert_ne different, Annotations.get]

def Value.asString : Option Value → Go String
  | some (.string s) => .ok s
  | _ => .error .interfaceConversion

def Value.asInt : Option Value → Go Int
  | some (.int n) => .ok n
  | _ => .error .interfaceConversion

@[simp] theorem Value.asString_string (s : String) : asString (some (.string s)) = .ok s := rfl

@[simp] theorem Value.asInt_int (n : Int) : asInt (some (.int n)) = .ok n := rfl

def Value.asFloat64 : Option Value → Go Float64
  | some (.float64 x) => .ok x
  | _ => .error .interfaceConversion

/-- `toIntSlice`; `none` stands for a value of another type. -/
def Value.toIntSlice : Value → Go (Option (List Int))
  | .ints ns => .ok (some ns)
  | .list items => do
      let ns ← items.mapM fun item => Value.asInt (some item)
      return some ns
  | _ => .ok none

def itoa (n : Int) : String := toString n

/-- The nearest number of millionths to `m * 2 ^ e`; a tie goes to the even one. -/
def millionths (m : Nat) : Int → Nat
  | .ofNat k => m * 2 ^ k * 10 ^ 6
  | .negSucc k =>
      let d := 2 ^ (k + 1)
      let q := m * 10 ^ 6 / d
      let r := m * 10 ^ 6 % d
      if 2 * r < d then q
      else if d < 2 * r then q + 1
      else q + q % 2

def sprintfF (x : Float64) : String :=
  let negative := x.msb
  let exponent := (x.extractLsb' 52 11).toNat
  let fraction := (x.extractLsb' 0 52).toNat
  if exponent = 2047 then
    if fraction ≠ 0 then "NaN" else if negative then "-Inf" else "+Inf"
  else
    let n :=
      if exponent = 0 then millionths fraction (-1074)
      else millionths (2 ^ 52 + fraction) (exponent - 1075)
    let decimals := Nat.repr (n % 10 ^ 6)
    let zeros := String.ofList (List.replicate (6 - decimals.length) '0')
    (if negative then "-" else "") ++ Nat.repr (n / 10 ^ 6) ++ "." ++ zeros ++ decimals

example : sprintfF 0x3F40624DD2F1A9FC#64 = "0.000500" := by decide

/-- An annotation of a signal that is not through a `nil` pointer. -/
def Signal.annotation (s : Signal) (k : String) : Go (Option Value) := do
  let annotations ← deref s.annotations
  return annotations.get k

def Signal.stringAnnotation (s : Signal) (k : String) : Go String := do
  Value.asString (← s.annotation k)

def Signal.intAnnotation (s : Signal) (k : String) : Go Int := do
  Value.asInt (← s.annotation k)

/-- Whether the `vector_type` of a group is `binary`. -/
def ObjectMetadata.isBinary (metadata : ObjectMetadata) : Bool :=
  match metadata.annotations.bind fun annotations => annotations.get "vector_type" with
  | some (.string s) => s = "binary"
  | _ => false

/-- The channels of the groups so far, each listed once. -/
def ObjectMetadata.addChannel (metadata : ObjectMetadata) (channels : List String) :
    List String :=
  match metadata.labels with
  | none => channels
  | some labels =>
      let channel := (labels.lookup "channel").getD ""
      if channel ∈ channels then channels else channels ++ [channel]

/-- What the round of a loop for one signal does: it adds variables, none of them for a
signal that is skipped, or it returns an error. -/
inductive Round (α : Type) where
  | add (vars : List α)
  | stop (error : String)
  deriving DecidableEq, Repr

/-- The variables that are added before the end of the loop or its first error. -/
def eachSignal {α : Type} (round : Signal → Go (Round α)) :
    List Signal → Go (List α × Option String)
  | [] => .ok ([], none)
  | s :: signals => do
      match ← round s with
      | .stop error => return ([], some error)
      | .add added =>
          let (rest, error) ← eachSignal round signals
          return (added ++ rest, error)

/-- The loop over the groups, with the channels that are found. -/
def eachGroup {M : Type} (round : M → ObjectMetadata → List Signal → Go M) :
    M × List String → List SignalGroup → Go (M × List String)
  | result, [] => .ok result
  | (fmiXml, channels), group :: groups => do
      let metadata ← deref group.metadata
      let _ ← deref metadata.name
      let fmiXml ← round fmiXml metadata group.signals
      eachGroup round (fmiXml, metadata.addChannel channels) groups

def missingVref (signal : Signal) : String :=
  "could not get value reference for signal " ++ signal.signal

/-- The start value of a string; only parameters and inputs have one. -/
def stringStart (causality : String) : Option Value → Go String
  | none => .ok ""
  | some start =>
      if causality = "input" ∨ causality = "parameter" then Value.asString (some start)
      else .ok ""

def binaryStart : Option Value → Go String
  | none => .ok ""
  | some start => Value.asString (some start)

/-- The value references of one direction, `none` when they are missing. -/
def busVrefs (signal : Signal) (k : String) : Go (Option (List Int)) := do
  match ← signal.annotation k with
  | none => return none
  | some vrefs => vrefs.toIntSlice

section Bus

variable {α : Type} (build : Signal → Int → String → Nat → Go α)

/-- The variables of a bus, an input and an output for each pair of references. -/
def buildBinarySignals (signal : Signal) : Nat → List (Int × Int) → Go (List α)
  | _, [] => .ok []
  | id, (rx, tx) :: vrefs => do
      let rxVariable ← build signal rx "rx" id
      let txVariable ← build signal tx "tx" id
      let rest ← buildBinarySignals signal (id + 1) vrefs
      return rxVariable :: txVariable :: rest

def busRound (signal : Signal) : Go (Round α) := do
  match ← busVrefs signal "dse.standards.fmi-ls-bus-topology.rx_vref" with
  | none => return .stop ("could not get rx_vref for signal " ++ signal.signal)
  | some rx =>
      match ← busVrefs signal "dse.standards.fmi-ls-bus-topology.tx_vref" with
      | none => return .stop ("could not get tx_vref for signal " ++ signal.signal)
      | some tx =>
          if rx.length ≠ tx.length then return .stop "rx-tx mismatch"
          else
            let added ← buildBinarySignals build signal 1 (rx.zip tx)
            return .add added

end Bus

end DseFmi.Generate
