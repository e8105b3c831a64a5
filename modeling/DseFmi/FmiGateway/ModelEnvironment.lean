import Mathlib
import DseFmi.FmiGateway.ParseFmi
import DseFmi.Library.PackedStrings
import DseFmi.Library.TakeWhile

/-!
# The environment of a model

The parser lists the variables of a model in an array, and the session packs them behind the
environment of its own process. An entry that is no scalar leaves a gap in the array, which
ends it for the session.
-/

namespace DseFmi.FmiGateway

open DseFmi.Fmu DseFmi.Library

inductive YamlNode where
  | scalar (name value : CString)
  | sequence
  | mapping

structure YamlMapping where
  keys : List CString
  get : CString → Option YamlNode

inductive EnvNode where
  | mapping (mapping : YamlMapping)
  | other

/-- A parameter with its default value; `none` without a name. -/
abbrev EnvarSlot := Option (CString × CString)

def scalarSlot : Option YamlNode → EnvarSlot
  | some (.scalar name value) => some (name, value)
  | _ => none

def envarRound (mapping : YamlMapping) (envar : List EnvarSlot) (i : Nat) : List EnvarSlot :=
  match scalarSlot (mapping.keys[i]?.bind mapping.get) with
  | some e => envar.set i (some e)
  | none => envar

def generateModelEnvar : Option EnvNode → Option (List EnvarSlot)
  | some (.mapping mapping) =>
      let usedNodes := mapping.keys.length
      some ((List.range usedNodes).foldl (envarRound mapping) (List.replicate (usedNodes + 1) none))
  | _ => none

structure ParentEnv where
  entries : List CString
  nonempty : ∀ e ∈ entries, e.bytes ≠ []

def ParentEnv.block (parent : ParentEnv) : List UInt8 :=
  packed (parent.entries.map CString.bytes) ++ [0]

def namedEnvar (envar : List EnvarSlot) : List (CString × CString) :=
  (envar.takeWhile Option.isSome).filterMap id

def envarText (e : CString × CString) : List UInt8 := e.1.bytes ++ 61 :: e.2.bytes

def parentEnvSize (parent : ParentEnv) : Nat :=
  parent.entries.foldl (fun size e => size + (e.bytes.length + 1)) 0 + 1

def envSize (envar : List (CString × CString)) : UInt32 :=
  envar.foldl (fun size e =>
    size + UInt32.ofNat (e.1.bytes.length + 1 + e.2.bytes.length + 1)) 0 + 1

/-- `snprintf` of a text at `ptr`, with the length of the text; one that no `int` counts has
no defined result. -/
def snprintf (block : List UInt8) (ptr size : Nat) (text : List UInt8) :
    Option (List UInt8 × Nat) :=
  if 2147483647 < text.length then none
  else if size = 0 then some (block, text.length)
  else (store block ptr (text.take (size - 1) ++ [0])).map fun block => (block, text.length)

def blockRound (size : Nat) (s : List UInt8 × Nat) (e : CString × CString) :
    Option (List UInt8 × Nat) := do
  let (envBlock, ptr) := s
  let (envBlock, len) ← snprintf envBlock ptr size (envarText e)
  return (envBlock, ptr + (len + 1))

/-- The block, or `NULL` without parameters; `none` when something is written outside of what
is allocated. -/
def buildEnv (parent : ParentEnv) : Option (List EnvarSlot) → Option (Option (List UInt8))
  | none => some none
  | some envar => do
      let envar := namedEnvar envar
      let size := (envSize envar).toNat
      let (envBlock, ptr) ← envar.foldlM (blockRound size) (List.replicate size 0, 0)
      let envBlock ← store envBlock ptr [0]
      let combinedEnv := List.replicate (parentEnvSize parent + size) 0
      let combinedEnv ← store combinedEnv 0 (parent.block.take (parentEnvSize parent))
      let combinedEnv ← store combinedEnv (parentEnvSize parent - 1) [0]
      let combinedEnv ← store combinedEnv (parentEnvSize parent - 1) envBlock
      return some combinedEnv

/-- A round fills the slot behind those that are filled. -/
theorem envarRound_append {mapping : YamlMapping} {filled : List EnvarSlot} {k : CString}
    (key : mapping.keys[filled.length]? = some k) (m : Nat) :
    envarRound mapping (filled ++ List.replicate (m + 1) none) filled.length =
      filled ++ [scalarSlot (mapping.get k)] ++ List.replicate m none := by
  rw [envarRound, key, Option.bind_some]
  cases scalarSlot (mapping.get k) with
  | none => simp [List.replicate_succ]
  | some e => simp [List.replicate_succ]

theorem foldl_envarRound (mapping : YamlMapping) {n : Nat} (inside : n ≤ mapping.keys.length) :
    (List.range n).foldl (envarRound mapping) (List.replicate (mapping.keys.length + 1) none) =
      (mapping.keys.take n).map (fun k => scalarSlot (mapping.get k)) ++
        List.replicate (mapping.keys.length + 1 - n) none := by
  induction n with
  | zero => simp
  | succ n ih =>
      have before := ih (Nat.le_of_succ_le inside)
      have length : ((mapping.keys.take n).map fun k => scalarSlot (mapping.get k)).length = n := by
        simp
        omega
      have left : mapping.keys.length + 1 - n = (mapping.keys.length + 1 - (n + 1)) + 1 := by omega
      have key : mapping.keys[((mapping.keys.take n).map fun k =>
          scalarSlot (mapping.get k)).length]? = some mapping.keys[n] := by
        rw [length]
        exact List.getElem?_eq_getElem inside
      have round := envarRound_append key (mapping.keys.length + 1 - (n + 1))
      rw [length] at round
      rw [List.range_succ, List.foldl_append, before, left, List.foldl_cons, List.foldl_nil, round,
        List.take_succ_eq_append_getElem inside, List.map_append]
      rfl

/-- The slots of the keys, with the one that ends the array. -/
theorem generateModelEnvar_mapping (mapping : YamlMapping) :
    generateModelEnvar (some (.mapping mapping)) =
      some (mapping.keys.map (fun k => scalarSlot (mapping.get k)) ++ [none]) := by
  rw [generateModelEnvar, foldl_envarRound mapping le_rfl, List.take_length]
  simp

def YamlMapping.scalars (mapping : YamlMapping) : List (CString × CString) :=
  mapping.keys.filterMap fun k => scalarSlot (mapping.get k)

theorem namedEnvar_append_none (slots : List EnvarSlot) :
    namedEnvar (slots ++ [none]) = (slots.takeWhile Option.isSome).filterMap id := by
  rw [namedEnvar, List.takeWhile_append]
  split
  case isTrue whole =>
    have all : slots.takeWhile Option.isSome = slots :=
      (List.takeWhile_prefix _).eq_of_length whole
    rw [all]
    simp
  case isFalse => rfl

/-- The bytes that entries take in a block. -/
def packedSize (envar : List (CString × CString)) : Nat := (packed (envar.map envarText)).length

@[simp] theorem packedSize_nil : packedSize [] = 0 := rfl

@[simp] theorem packedSize_cons (e : CString × CString) (envar : List (CString × CString)) :
    packedSize (e :: envar) = (envarText e).length + 1 + packedSize envar := by
  simp [packedSize]
  omega

theorem toNat_envSize (envar : List (CString × CString)) :
    (envSize envar).toNat = (packedSize envar + 1) % 2 ^ 32 := by
  have sum (size : UInt32) : envar.foldl (fun size e =>
      size + UInt32.ofNat (e.1.bytes.length + 1 + e.2.bytes.length + 1)) size =
        size + UInt32.ofNat (packedSize envar) := by
    induction envar generalizing size with
    | nil => simp
    | cons e envar ih =>
        have text : e.1.bytes.length + 1 + e.2.bytes.length + 1 = (envarText e).length + 1 := by
          simp [envarText]
          omega
        have both : UInt32.ofNat ((envarText e).length + 1 + packedSize envar) =
            UInt32.ofNat ((envarText e).length + 1) + UInt32.ofNat (packedSize envar) :=
          UInt32.ofNat_add _ _
        rw [List.foldl_cons, ih, packedSize_cons, text, both, add_assoc]
  have all : UInt32.ofNat (packedSize envar) + 1 = UInt32.ofNat (packedSize envar + 1) :=
    (UInt32.ofNat_add _ 1).symm
  rw [envSize, sum, zero_add, all, UInt32.toNat_ofNat']

theorem parentEnvSize_eq (parent : ParentEnv) : parentEnvSize parent = parent.block.length := by
  have sum (size : Nat) (entries : List CString) :
      entries.foldl (fun size e => size + (e.bytes.length + 1)) size =
        size + (packed (entries.map CString.bytes)).length := by
    induction entries generalizing size with
    | nil => simp
    | cons e entries ih =>
        rw [List.foldl_cons, ih]
        simp
        omega
  rw [parentEnvSize, sum, ParentEnv.block]
  simp

def Countable (envar : List (CString × CString)) : Prop :=
  ∀ e ∈ envar, (envarText e).length ≤ 2147483647

theorem snprintf_ptr {block : List UInt8} {ptr size : Nat} {text : List UInt8}
    {result : List UInt8 × Nat} (printed : snprintf block ptr size text = some result) :
    text.length ≤ 2147483647 ∧ result.2 = text.length ∧ result.1.length = block.length := by
  unfold snprintf at printed
  split at printed
  case isTrue => cases printed
  case isFalse short =>
    split at printed
    case isTrue =>
      cases printed
      exact ⟨not_lt.mp short, rfl, rfl⟩
    case isFalse =>
      obtain ⟨block', written, rfl⟩ := Option.map_eq_some_iff.mp printed
      exact ⟨not_lt.mp short, rfl, length_store written⟩

/-- However large the block is, the position moves by the sizes of the texts. -/
theorem foldlM_blockRound_ptr {size : Nat} {envar : List (CString × CString)}
    {s s' : List UInt8 × Nat} (ran : envar.foldlM (blockRound size) s = some s') :
    Countable envar ∧ s'.2 = s.2 + packedSize envar ∧ s'.1.length = s.1.length := by
  induction envar generalizing s with
  | nil =>
      cases ran
      exact ⟨fun _ member => absurd member List.not_mem_nil, rfl, rfl⟩
  | cons e envar ih =>
      rw [List.foldlM_cons] at ran
      obtain ⟨next, round, rest⟩ := Option.bind_eq_some_iff.mp ran
      obtain ⟨printed, written, returned⟩ := Option.bind_eq_some_iff.mp round
      obtain ⟨short, len, length⟩ := snprintf_ptr written
      obtain ⟨countable, ptr, kept⟩ := ih rest
      cases returned
      refine ⟨List.forall_mem_cons.mpr ⟨short, countable⟩, ?_, kept.trans length⟩
      rw [ptr, packedSize_cons, len]
      dsimp only
      omega

def filledBlock (envar : List (CString × CString)) (size : Nat) : List UInt8 × Nat :=
  (packed (envar.map envarText) ++ List.replicate (size - packedSize envar) 0, packedSize envar)

theorem packedSize_append (envar more : List (CString × CString)) :
    packedSize (envar ++ more) = packedSize envar + packedSize more := by
  simp [packedSize]

theorem blockRound_filled {envar : List (CString × CString)} {e : CString × CString} {size : Nat}
    (countable : (envarText e).length ≤ 2147483647)
    (room : packedSize (envar ++ [e]) < size) :
    blockRound size (filledBlock envar size) e = some (filledBlock (envar ++ [e]) size) := by
  have total : packedSize (envar ++ [e]) = packedSize envar + ((envarText e).length + 1) := by
    simp [packedSize_append]
  have text : (envarText e).take (size - 1) = envarText e := by
    apply List.take_of_length_le
    omega
  have free : (envarText e ++ [0]).length ≤
      (List.replicate (size - packedSize envar) (0 : UInt8)).length := by
    simp
    omega
  have behind := store_behind (packed (envar.map envarText)) (envarText e ++ [0]) free
  have left : size - packedSize envar - ((envarText e).length + 1) =
      size - packedSize (envar ++ [e]) := by omega
  have stored : store (filledBlock envar size).1 (packedSize envar) (envarText e ++ [0]) =
      some (filledBlock (envar ++ [e]) size).1 := by
    refine behind.trans (congrArg some ?_)
    simp [filledBlock, left]
  rw [blockRound, filledBlock]
  dsimp only
  rw [snprintf, if_neg (not_lt.mpr countable), if_neg (by omega), text]
  change ((store (filledBlock envar size).1 _ _).map _ >>= _) = _
  rw [stored, filledBlock, total]
  rfl

theorem foldlM_blockRound_filled {envar done : List (CString × CString)} {size : Nat}
    (countable : Countable envar) (room : packedSize (done ++ envar) < size) :
    envar.foldlM (blockRound size) (filledBlock done size) =
      some (filledBlock (done ++ envar) size) := by
  induction envar generalizing done with
  | nil => simp
  | cons e envar ih =>
      obtain ⟨short, countable⟩ := List.forall_mem_cons.mp countable
      have split : done ++ e :: envar = (done ++ [e]) ++ envar := by simp
      rw [split] at room ⊢
      have first : packedSize (done ++ [e]) < size := by
        rw [packedSize_append] at room
        omega
      rw [List.foldlM_cons, blockRound_filled short first]
      exact ih countable room

/-- The entries have texts of which the block is an allocation. -/
structure Allocatable (envar : List (CString × CString)) : Prop where
  countable : Countable envar
  size : packedSize envar + 1 < 2 ^ 32

/-- The block with the entries behind those of the session. -/
def combinedBlock (parent : ParentEnv) (envar : List (CString × CString)) : List UInt8 :=
  packed (parent.entries.map CString.bytes ++ envar.map envarText) ++ [0, 0]

section Combine

variable (parent : ParentEnv) (envar : List (CString × CString)) (size : Nat)

theorem parentEnvSize_sub_one :
    parentEnvSize parent - 1 = (packed (parent.entries.map CString.bytes)).length := by
  simp [parentEnvSize_eq, ParentEnv.block]

theorem store_terminator :
    store (filledBlock envar (packedSize envar + 1)).1 (packedSize envar) [0] =
      some (packed (envar.map envarText) ++ [0]) := by
  refine (store_behind _ _ (by simp)).trans (congrArg some ?_)
  simp

theorem store_parent :
    store (List.replicate (parentEnvSize parent + size) 0) 0
        (parent.block.take (parentEnvSize parent)) =
      some (parent.block ++ List.replicate size 0) := by
  rw [parentEnvSize_eq, List.take_length]
  refine (store_behind [] _ (by simp)).trans (congrArg some ?_)
  simp

/-- The end of the block of the session, which is there already. -/
theorem store_parent_terminator :
    store (parent.block ++ List.replicate size 0) (parentEnvSize parent - 1) [0] =
      some (parent.block ++ List.replicate size 0) := by
  rw [parentEnvSize_sub_one, ParentEnv.block, List.append_assoc]
  refine (store_behind _ _ (by simp)).trans (congrArg some ?_)
  simp

theorem store_entries :
    store (parent.block ++ List.replicate (packedSize envar + 1) 0) (parentEnvSize parent - 1)
        (packed (envar.map envarText) ++ [0]) =
      some (combinedBlock parent envar) := by
  have length : (packed (envar.map envarText) ++ [0]).length = packedSize envar + 1 := by
    simp [packedSize]
  rw [parentEnvSize_sub_one, ParentEnv.block, List.append_assoc]
  refine (store_behind _ _ (by simp [packedSize])).trans (congrArg some ?_)
  rw [length, combinedBlock, packed_append, List.singleton_append, List.drop_succ_cons]
  simp

end Combine

theorem buildEnv_of_allocatable (parent : ParentEnv) {envar : List EnvarSlot}
    (fits : Allocatable (namedEnvar envar)) :
    buildEnv parent (some envar) = some (some (combinedBlock parent (namedEnvar envar))) := by
  have size : (envSize (namedEnvar envar)).toNat = packedSize (namedEnvar envar) + 1 := by
    rw [toNat_envSize, Nat.mod_eq_of_lt fits.size]
  have room : packedSize ([] ++ namedEnvar envar) < packedSize (namedEnvar envar) + 1 :=
    Nat.lt_succ_self _
  have filled := foldlM_blockRound_filled fits.countable room
  have start : filledBlock [] (packedSize (namedEnvar envar) + 1) =
      (List.replicate (packedSize (namedEnvar envar) + 1) 0, 0) := by
    simp [filledBlock]
  rw [start] at filled
  rw [buildEnv]
  dsimp only
  rw [size, filled]
  change (store (filledBlock _ _).1 (packedSize _) [0] >>= _) = _
  rw [List.nil_append, store_terminator]
  change (store _ 0 _ >>= _) = _
  rw [store_parent]
  change (store _ _ [0] >>= _) = _
  rw [store_parent_terminator]
  change (store _ _ _ >>= _) = _
  rw [store_entries]
  rfl

theorem allocatable_of_buildEnv {parent : ParentEnv} {envar : List EnvarSlot}
    {block : Option (List UInt8)} (built : buildEnv parent (some envar) = some block) :
    Allocatable (namedEnvar envar) := by
  rw [buildEnv] at built
  obtain ⟨s, ran, rest⟩ := Option.bind_eq_some_iff.mp built
  obtain ⟨envBlock, terminated, _⟩ := Option.bind_eq_some_iff.mp rest
  obtain ⟨countable, ptr, length⟩ := foldlM_blockRound_ptr ran
  obtain ⟨inside, _⟩ := store_eq_some.mp terminated
  refine ⟨countable, ?_⟩
  rw [ptr, length, toNat_envSize] at inside
  simp at inside
  omega

/-- The block that is built holds the entries of the session and one for each scalar. -/
def HoldsScalars (parent : ParentEnv) (mapping : YamlMapping)
    (envar : Option (List EnvarSlot)) : Prop :=
  ∃ block, buildEnv parent envar = some (some block) ∧
    ∃ added, blockStrings block = some (parent.entries.map CString.bytes ++ added) ∧
      added.Perm (mapping.scalars.map envarText)

/-- No scalar follows an entry that is none, in the order of the keys. -/
def YamlMapping.ScalarsFirst (mapping : YamlMapping) : Prop :=
  mapping.keys.Pairwise fun k k' =>
    (scalarSlot (mapping.get k')).isSome = true → (scalarSlot (mapping.get k)).isSome = true

theorem packable_entries (parent : ParentEnv) (envar : List (CString × CString)) :
    Packable (parent.entries.map CString.bytes ++ envar.map envarText) := by
  intro s member
  rcases List.mem_append.mp member with own | added
  · obtain ⟨e, entry, rfl⟩ := List.mem_map.mp own
    exact ⟨parent.nonempty e entry, e.no_nul⟩
  · obtain ⟨e, _, rfl⟩ := List.mem_map.mp added
    constructor
    · simp [envarText]
    · simp [envarText, e.1.no_nul, e.2.no_nul]

theorem blockStrings_combinedBlock (parent : ParentEnv) (envar : List (CString × CString)) :
    blockStrings (combinedBlock parent envar) =
      some (parent.entries.map CString.bytes ++ envar.map envarText) :=
  blockStrings_packed (packable_entries parent envar) [0]

def YamlMapping.exported (mapping : YamlMapping) : List (CString × CString) :=
  (mapping.keys.takeWhile fun k => (scalarSlot (mapping.get k)).isSome).filterMap fun k =>
    scalarSlot (mapping.get k)

theorem namedEnvar_generateModelEnvar (mapping : YamlMapping) :
    namedEnvar (mapping.keys.map (fun k => scalarSlot (mapping.get k)) ++ [none]) =
      mapping.exported := by
  rw [namedEnvar_append_none, List.takeWhile_map, List.filterMap_map]
  rfl

/-- All entries are exported only when no scalar follows a gap. -/
theorem length_exported_iff (mapping : YamlMapping) :
    mapping.exported.length = mapping.scalars.length ↔ mapping.ScalarsFirst := by
  have sub := takeWhile_sublist_filter (fun k => (scalarSlot (mapping.get k)).isSome) mapping.keys
  have exported : mapping.exported.length =
      (mapping.keys.takeWhile fun k => (scalarSlot (mapping.get k)).isSome).length := by
    rw [YamlMapping.exported, List.length_filterMap_eq_countP, List.countP_eq_length]
    intro k member
    exact List.mem_takeWhile_imp (p := fun k => (scalarSlot (mapping.get k)).isSome) member
  have scalars : mapping.scalars.length =
      (mapping.keys.filter fun k => (scalarSlot (mapping.get k)).isSome).length := by
    rw [YamlMapping.scalars, List.length_filterMap_eq_countP, List.countP_eq_length_filter]
  rw [exported, scalars, YamlMapping.ScalarsFirst, ← takeWhile_eq_filter_iff]
  constructor
  · exact sub.eq_of_length
  · exact congrArg List.length

theorem exported_eq_scalars {mapping : YamlMapping} (first : mapping.ScalarsFirst) :
    mapping.exported = mapping.scalars := by
  have all : mapping.exported.Sublist mapping.scalars :=
    (List.takeWhile_sublist _).filterMap _
  exact all.eq_of_length ((length_exported_iff mapping).mpr first)

/-- All variables are in the block exactly when the scalars come first and their texts fit. -/
theorem generateModelEnvar_holdsScalars_iff (parent : ParentEnv) (mapping : YamlMapping) :
    HoldsScalars parent mapping (generateModelEnvar (some (.mapping mapping))) ↔
      mapping.ScalarsFirst ∧ Allocatable mapping.scalars := by
  unfold HoldsScalars
  rw [generateModelEnvar_mapping]
  constructor
  · rintro ⟨block, built, added, found, complete⟩
    have fits := allocatable_of_buildEnv built
    have whole := (buildEnv_of_allocatable parent fits).symm.trans built
    rw [namedEnvar_generateModelEnvar] at fits whole
    cases whole
    rw [blockStrings_combinedBlock] at found
    have same : mapping.exported.map envarText = added :=
      List.append_cancel_left (Option.some.inj found)
    have first : mapping.ScalarsFirst := by
      apply (length_exported_iff mapping).mp
      simpa [← same] using complete.length_eq
    exact ⟨first, exported_eq_scalars first ▸ fits⟩
  · rintro ⟨first, fits⟩
    rw [← exported_eq_scalars first, ← namedEnvar_generateModelEnvar] at fits
    refine ⟨_, buildEnv_of_allocatable parent fits, mapping.scalars.map envarText, ?_, .refl _⟩
    rw [namedEnvar_generateModelEnvar, blockStrings_combinedBlock, exported_eq_scalars first]

theorem not_holdsScalars_none (parent : ParentEnv) (mapping : YamlMapping) :
    ¬ HoldsScalars parent mapping none := by
  rintro ⟨block, built, _⟩
  cases built

end DseFmi.FmiGateway
