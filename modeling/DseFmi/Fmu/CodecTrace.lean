import Mathlib
import DseFmi.Fmu.Data
import DseFmi.Library.IntegerLiteral

/-!
# The trace of a codec

An environment variable selects the messages that a codec traces: all of them, or those with
an identifier from a list. The identifiers are kept under their decimal texts.
-/

namespace DseFmi.Fmu

open DseFmi.Library

inductive DataModel where
  | lp64
  | llp64
  deriving DecidableEq, Repr

def DataModel.longMax : DataModel → Nat
  | .lp64 => 9223372036854775807
  | .llp64 => 2147483647

structure NCodecTraceData where
  wildcard : Bool
  filter : HashMap Int

inductive CodecType where
  | frame
  | pdu
  deriving DecidableEq, Repr

structure NCodecCanMessage where
  frameId : UInt32

structure NCodecPdu where
  id : UInt32

def printU (id : UInt32) : String := Nat.repr id.toNat

def passesFilter (td : NCodecTraceData) (id : UInt32) : Bool :=
  td.wildcard || (td.filter.lookup (printU id)).isSome

def traceCanLog (td : NCodecTraceData) (msg : NCodecCanMessage) : Bool :=
  passesFilter td msg.frameId

def tracePduLog (td : NCodecTraceData) (pdu : NCodecPdu) : Bool := passesFilter td pdu.id

/-- The tokens that `strtok_r` returns one after the other. -/
def filterTokens (filter : List Char) : List (List Char) :=
  (filter.splitOn ',').filter fun token => !token.isEmpty

def addFilterId (model : DataModel) (filter : HashMap Int) (token : List Char) : HashMap Int :=
  let id := strtol model.longMax token
  if 0 < id then filter.insert (printU (UInt32.ofInt id)) 1 else filter

def printText : Option String → String
  | some s => s
  | none => "(null)"

def ncodecTraceEnvvarLen : Nat := 100

def traceEnvName (config : String → Option String) (codecType : CodecType) : String :=
  let name := match codecType with
    | .frame => "NCODEC_TRACE_" ++ printText (config "bus") ++ "_" ++ printText (config "bus_id")
    | .pdu => "NCODEC_TRACE_PDU_" ++ printText (config "swc_id")
  (String.ofList (name.toList.take (ncodecTraceEnvvarLen - 1))).toUpper

def codecTypeOf (config : String → Option String) : Option CodecType :=
  match config "type" with
  | some "frame" => some .frame
  | some "pdu" => some .pdu
  | _ => none

def traceConfigure (model : DataModel) (config : String → Option String)
    (getenv : String → Option (List Char)) : Option (CodecType × NCodecTraceData) := do
  let codecType ← codecTypeOf config
  let filter ← getenv (traceEnvName config codecType)
  if filter = ['*'] then some (codecType, ⟨true, ∅⟩)
  else some (codecType, ⟨false, (filterTokens filter).foldl (addFilterId model) ∅⟩)

/-- A filter of an importer: the wildcard, or integers with commas between them. -/
inductive TraceFilter where
  | wildcard
  | ids (literals : List IntegerLiteral)

def TraceFilter.text : TraceFilter → List Char
  | .wildcard => ['*']
  | .ids literals => [','].intercalate (literals.map IntegerLiteral.text)

def TraceFilter.Selects (filter : TraceFilter) (id : UInt32) : Prop :=
  match filter with
  | .wildcard => True
  | .ids literals => ∃ l ∈ literals, l.value = id.toNat

/-- The messages that are traced are those that the filter selects. -/
def TracesSelected (td : NCodecTraceData) (filter : TraceFilter) : Prop :=
  (∀ msg : NCodecCanMessage, traceCanLog td msg = true ↔ filter.Selects msg.frameId) ∧
    ∀ pdu : NCodecPdu, tracePduLog td pdu = true ↔ filter.Selects pdu.id

/-- The integers that are kept apart: with 0 there is another one with the lower half 0, none
of 32 bits is beyond a `long`, and what is left of a longer one is in the list. -/
structure KeptApart (model : DataModel) (values : List Int) : Prop where
  zero : 0 ∈ values → ∃ v ∈ values, 2 ^ 32 ≤ v ∧ min v model.longMax % 2 ^ 32 = 0
  fits : ∀ v ∈ values, v < 2 ^ 32 → v ≤ model.longMax
  wide : ∀ v ∈ values, 2 ^ 32 ≤ v → min v model.longMax % 2 ^ 32 ∈ values

theorem printU_injective : Function.Injective printU := by
  intro a b same
  exact UInt32.toNat_inj.mp (Nat.repr_injective same)

section Filter

variable (model : DataModel)

/-- An identifier is found when a token with a positive number has it in its lower half. -/
theorem lookup_addFilterId (tokens : List (List Char)) (filter : HashMap Int) (id : UInt32) :
    ((tokens.foldl (addFilterId model) filter).lookup (printU id)).isSome = true ↔
      (filter.lookup (printU id)).isSome = true ∨ ∃ token ∈ tokens,
        0 < strtol model.longMax token ∧ UInt32.ofInt (strtol model.longMax token) = id := by
  induction tokens generalizing filter with
  | nil => simp
  | cons token tokens ih =>
      rw [List.foldl_cons, ih, addFilterId]
      split
      case isTrue positive =>
        by_cases same : UInt32.ofInt (strtol model.longMax token) = id
        · simp [same, positive]
        · have other : printU id ≠ printU (UInt32.ofInt (strtol model.longMax token)) :=
            fun equal => same (printU_injective equal.symm)
          rw [AList.lookup_insert_ne other]
          simp [same]
      case isFalse negative => simp [negative]

theorem longMax_pos : 0 < model.longMax := by
  cases model with
  | lp64 => decide
  | llp64 => decide

/-- A positive number is cut at the upper bound only. -/
theorem clampLong_pos_iff (v : Int) : 0 < clampLong model.longMax v ↔ 0 < v := by
  have positive := longMax_pos model
  unfold clampLong
  omega

theorem clampLong_of_pos {v : Int} (positive : 0 < v) :
    clampLong model.longMax v = min v model.longMax := by
  unfold clampLong
  omega

/-- The identifiers of some integers, as the filter keeps them. -/
def Keeps (values : List Int) (id : UInt32) : Prop :=
  ∃ v ∈ values, 0 < v ∧ min v model.longMax % 2 ^ 32 = id.toNat

theorem keptApart_iff (values : List Int) :
    (∀ id : UInt32, Keeps model values id ↔ ∃ v ∈ values, v = id.toNat) ↔
      KeptApart model values := by
  have positive := longMax_pos model
  constructor
  · intro exact
    constructor
    · intro zero
      obtain ⟨v, listed, pos, low⟩ := (exact 0).mpr ⟨0, zero, rfl⟩
      refine ⟨v, listed, ?_, low⟩
      have low : min v model.longMax % 2 ^ 32 = 0 := low
      omega
    · intro v listed small
      by_contra beyond
      have id_eq : (UInt32.ofNat v.toNat).toNat = v.toNat := by
        rw [UInt32.toNat_ofNat']
        omega
      obtain ⟨w, _, pos, low⟩ := (exact (UInt32.ofNat v.toNat)).mpr
        ⟨v, listed, by rw [id_eq]; omega⟩
      rw [id_eq] at low
      omega
    · intro v listed long
      have id_eq : (UInt32.ofNat (min v model.longMax % 2 ^ 32).toNat).toNat =
          (min v model.longMax % 2 ^ 32).toNat := by
        rw [UInt32.toNat_ofNat']
        omega
      obtain ⟨w, found, same⟩ := (exact (UInt32.ofNat (min v model.longMax % 2 ^ 32).toNat)).mp
        ⟨v, listed, by omega, by rw [id_eq]; omega⟩
      rw [id_eq] at same
      have value : w = min v model.longMax % 2 ^ 32 := by omega
      exact value ▸ found
  · intro apart id
    have bound := id.toNat_lt
    constructor
    · rintro ⟨v, listed, pos, low⟩
      by_cases small : v < 2 ^ 32
      · have inside := apart.fits v listed small
        exact ⟨v, listed, by omega⟩
      · exact ⟨_, apart.wide v listed (not_lt.mp small), low⟩
    · rintro ⟨v, listed, same⟩
      by_cases zero : v = 0
      · obtain ⟨w, found, long, low⟩ := apart.zero (zero ▸ listed)
        exact ⟨w, found, by omega, by omega⟩
      · have inside := apart.fits v listed (by omega)
        exact ⟨v, listed, by omega, by omega⟩

theorem not_mem_text (l : IntegerLiteral) {c : Char} (special : c = ',' ∨ c = '*') :
    c ∉ l.text := by
  intro member
  rcases l.mem_text member with rfl | rfl | rfl | digit
  · exact absurd special (by decide)
  · exact absurd special (by decide)
  · exact absurd special (by decide)
  · rcases special with rfl | rfl
    · exact absurd digit (by decide)
    · exact absurd digit (by decide)

theorem text_ne_nil (l : IntegerLiteral) : l.text ≠ [] := by
  obtain ⟨c, rest, text, -⟩ := l.exists_digit
  simp [IntegerLiteral.text, text]

theorem filterTokens_text (literals : List IntegerLiteral) :
    filterTokens (TraceFilter.ids literals).text = literals.map IntegerLiteral.text := by
  have tokens : (literals.map IntegerLiteral.text).filter (fun token => !token.isEmpty) =
      literals.map IntegerLiteral.text := by
    apply List.filter_eq_self.mpr
    intro token member
    obtain ⟨l, _, rfl⟩ := List.mem_map.mp member
    simp [text_ne_nil]
  cases literals with
  | nil => rfl
  | cons l literals =>
      have commas : ∀ token ∈ (l :: literals).map IntegerLiteral.text, ',' ∉ token := by
        intro token member
        obtain ⟨l', _, rfl⟩ := List.mem_map.mp member
        exact not_mem_text l' (.inl rfl)
      rw [filterTokens, TraceFilter.text, List.splitOn_intercalate ',' commas (by simp), tokens]

theorem text_ne_wildcard (literals : List IntegerLiteral) :
    (TraceFilter.ids literals).text ≠ ['*'] := by
  intro same
  have tokens := filterTokens_text literals
  rw [same] at tokens
  have token : ['*'] ∈ literals.map IntegerLiteral.text := by
    rw [← tokens]
    exact List.mem_singleton.mpr rfl
  obtain ⟨l, _, text⟩ := List.mem_map.mp token
  exact not_mem_text l (.inr rfl) (text ▸ List.mem_singleton.mpr rfl)

/-- The identifiers that pass are those the filter keeps. -/
theorem passesFilter_iff (literals : List IntegerLiteral) (id : UInt32) :
    passesFilter ⟨false, (literals.map IntegerLiteral.text).foldl (addFilterId model) ∅⟩ id = true ↔
      Keeps model (literals.map IntegerLiteral.value) id := by
  have lower {n : Int} : UInt32.ofInt n = id ↔ n % 2 ^ 32 = id.toNat := by
    rw [← UInt32.toNat_inj, UInt32.ofInt, UInt32.toNat_ofNat']
    omega
  have found := lookup_addFilterId model (literals.map IntegerLiteral.text) ∅ id
  rw [passesFilter, Bool.false_or, found]
  simp only [Keeps, List.mem_map]
  constructor
  · rintro (empty | ⟨_, ⟨l, listed, rfl⟩, positive, same⟩)
    · cases empty
    · rw [l.strtol_text] at positive same
      have pos := (clampLong_pos_iff model l.value).mp positive
      rw [clampLong_of_pos model pos] at same
      exact ⟨l.value, ⟨l, listed, rfl⟩, pos, lower.mp same⟩
  · rintro ⟨_, ⟨l, listed, rfl⟩, pos, same⟩
    refine .inr ⟨l.text, ⟨l, listed, rfl⟩, ?_, ?_⟩
    · rw [l.strtol_text]
      exact (clampLong_pos_iff model l.value).mpr pos
    · rw [l.strtol_text, clampLong_of_pos model pos]
      exact lower.mpr same

end Filter

/-- A filter that keeps its integers apart; the wildcard has none. -/
def TraceFilter.KeptApart (model : DataModel) : TraceFilter → Prop
  | .wildcard => True
  | .ids literals => Fmu.KeptApart model (literals.map IntegerLiteral.value)

theorem tracesSelected_iff (td : NCodecTraceData) (filter : TraceFilter) :
    TracesSelected td filter ↔ ∀ id, passesFilter td id = true ↔ filter.Selects id := by
  constructor
  · exact fun traces id => traces.1 ⟨id⟩
  · exact fun passes => ⟨fun msg => passes msg.frameId, fun pdu => passes pdu.id⟩

/-- The trace of a filter is exact when its integers are kept apart. -/
theorem traceConfigure_selected_iff (model : DataModel) {config : String → Option String}
    {getenv : String → Option (List Char)} {codecType : CodecType} {filter : TraceFilter}
    (codec : codecTypeOf config = some codecType)
    (given : getenv (traceEnvName config codecType) = some filter.text) :
    ∃ td, traceConfigure model config getenv = some (codecType, td) ∧
      (TracesSelected td filter ↔ filter.KeptApart model) := by
  rw [traceConfigure, codec, Option.bind_eq_bind, Option.bind_some, given, Option.bind_eq_bind,
    Option.bind_some]
  cases filter with
  | wildcard =>
      refine ⟨⟨true, ∅⟩, if_pos rfl, ?_⟩
      rw [tracesSelected_iff]
      exact iff_of_true (fun _ => iff_of_true rfl trivial) trivial
  | ids literals =>
      refine ⟨_, if_neg (text_ne_wildcard literals), ?_⟩
      rw [tracesSelected_iff, filterTokens_text, TraceFilter.KeptApart, ← keptApart_iff]
      apply forall_congr'
      intro id
      have selects : (TraceFilter.ids literals).Selects id ↔
          ∃ v ∈ literals.map IntegerLiteral.value, v = id.toNat := by
        simp [TraceFilter.Selects]
      rw [passesFilter_iff, selects]

theorem zero_valid : ∀ c ∈ ([] : List Char), digitValue c < Radix.octal.base :=
  fun _ member => absurd member List.not_mem_nil

def zeroLiteral : IntegerLiteral := ⟨0, none, .octal, [], zero_valid, trivial⟩

theorem sixteen_valid : ∀ c ∈ ['1', '0'], digitValue c < (Radix.hexadecimal false).base := by
  intro c member
  rcases List.mem_cons.mp member with rfl | rest
  · decide
  · cases List.mem_singleton.mp rest
    decide

theorem sixteen_shape : (Radix.hexadecimal false).Shape ['1', '0'] := List.cons_ne_nil _ _

def sixteenLiteral : IntegerLiteral :=
  ⟨0, none, .hexadecimal false, ['1', '0'], sixteen_valid, sixteen_shape⟩

def frameConfig (key : String) : Option String := if key = "type" then some "frame" else none

theorem traceConfigure_selected_hexadecimal :
    ∃ td, traceConfigure .lp64 frameConfig (fun _ => some "0x10".toList) = some (.frame, td) ∧
      (TracesSelected td (.ids [sixteenLiteral]) ↔
        (TraceFilter.ids [sixteenLiteral]).KeptApart .lp64) := by
  have codec : codecTypeOf frameConfig = some .frame := by decide
  have given : (fun _ => some "0x10".toList : String → Option (List Char))
      (traceEnvName frameConfig .frame) = some (TraceFilter.ids [sixteenLiteral]).text := by
    rfl
  exact traceConfigure_selected_iff .lp64 codec given

/-- A frame with the identifier 0 is not traced with the filter `0`. -/
theorem traceConfigure_zero :
    traceConfigure .lp64 frameConfig (fun _ => some "0".toList) = some (.frame, ⟨false, ∅⟩) ∧
      (TraceFilter.ids [zeroLiteral]).text = "0".toList ∧
      ¬ TracesSelected ⟨false, ∅⟩ (.ids [zeroLiteral]) := by
  refine ⟨by rfl, by rfl, fun traces => ?_⟩
  have traced := (traces.1 ⟨0⟩).mpr ⟨zeroLiteral, List.mem_singleton.mpr rfl, by rfl⟩
  exact absurd traced (by decide)

end DseFmi.Fmu
