import Mathlib.Data.List.Basic
import Mathlib.Tactic.Common

/-!
# Blocks of packed strings

A block holds strings of bytes one behind the other, each with a NUL, and a NUL more at its
end. A block of fixed size is filled from its front; a byte behind its end cannot be written.
-/

namespace DseFmi.Library

/-- The strings behind the bytes `current`, `none` for a block without an end. -/
def readStrings (current : List UInt8) : List UInt8 → Option (List (List UInt8))
  | [] => none
  | b :: block =>
      if b = 0 then
        if current.isEmpty then some []
        else (readStrings [] block).map fun strings => current :: strings
      else readStrings (current ++ [b]) block

def blockStrings (block : List UInt8) : Option (List (List UInt8)) := readStrings [] block

def packed (strings : List (List UInt8)) : List UInt8 := strings.flatMap fun s => s ++ [0]

@[simp] theorem packed_nil : packed [] = [] := rfl

@[simp] theorem packed_cons (s : List UInt8) (strings : List (List UInt8)) :
    packed (s :: strings) = s ++ 0 :: packed strings := by
  simp [packed]

@[simp] theorem packed_append (strings more : List (List UInt8)) :
    packed (strings ++ more) = packed strings ++ packed more := by
  simp [packed]

def Packable (strings : List (List UInt8)) : Prop := ∀ s ∈ strings, s ≠ [] ∧ 0 ∉ s

theorem readStrings_append {s : List UInt8} (no_nul : 0 ∉ s) (current block : List UInt8) :
    readStrings current (s ++ block) = readStrings (current ++ s) block := by
  induction s generalizing current with
  | nil => simp
  | cons b s ih =>
      have nonzero : b ≠ 0 := fun zero => no_nul (zero ▸ List.mem_cons_self)
      have rest : 0 ∉ s := fun member => no_nul (List.mem_cons_of_mem _ member)
      rw [List.cons_append, readStrings, if_neg nonzero, ih rest]
      simp

theorem blockStrings_packed {strings : List (List UInt8)} (packable : Packable strings)
    (rest : List UInt8) : blockStrings (packed strings ++ 0 :: rest) = some strings := by
  induction strings with
  | nil => simp [blockStrings, readStrings]
  | cons s strings ih =>
      obtain ⟨nonempty, no_nul⟩ := packable s List.mem_cons_self
      have later := ih fun t member => packable t (List.mem_cons_of_mem _ member)
      have filled : s.isEmpty = false := by simp [nonempty]
      rw [packed_cons, List.append_assoc, List.cons_append, blockStrings,
        readStrings_append no_nul, List.nil_append, readStrings, if_pos rfl, filled]
      change (blockStrings _).map _ = _
      rw [later]
      rfl

/-- A block with bytes at a position, `none` behind its end. -/
def store (block : List UInt8) (pos : Nat) (bytes : List UInt8) : Option (List UInt8) :=
  if pos + bytes.length ≤ block.length then
    some (block.take pos ++ bytes ++ block.drop (pos + bytes.length))
  else none

theorem store_eq_some {block result : List UInt8} {pos : Nat} {bytes : List UInt8} :
    store block pos bytes = some result ↔ pos + bytes.length ≤ block.length ∧
      result = block.take pos ++ bytes ++ block.drop (pos + bytes.length) := by
  unfold store
  split
  case isTrue inside => simp [inside, eq_comm]
  case isFalse outside => simp [outside]

theorem length_store {block result : List UInt8} {pos : Nat} {bytes : List UInt8}
    (stored : store block pos bytes = some result) : result.length = block.length := by
  obtain ⟨inside, rfl⟩ := store_eq_some.mp stored
  simp
  omega

theorem store_behind (front bytes : List UInt8) {rest : List UInt8}
    (room : bytes.length ≤ rest.length) :
    store (front ++ rest) front.length bytes = some (front ++ bytes ++ rest.drop bytes.length) := by
  have inside : front.length + bytes.length ≤ (front ++ rest).length := by simpa using room
  rw [store, if_pos inside, List.take_left, List.drop_append]
  simp

end DseFmi.Library
