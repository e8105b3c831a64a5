import Mathlib.Tactic.Common

/-!
# Byte memory

Memory is a byte at every address. Words of eight bytes are stored with the least
significant byte first.
-/

namespace DseFmi.Library

abbrev Memory := Nat → UInt8

def Memory.load64 (memory : Memory) (a : Nat) : BitVec 64 :=
  (memory (a + 7)).toBitVec ++ (memory (a + 6)).toBitVec ++ (memory (a + 5)).toBitVec ++
    (memory (a + 4)).toBitVec ++ (memory (a + 3)).toBitVec ++ (memory (a + 2)).toBitVec ++
    (memory (a + 1)).toBitVec ++ (memory a).toBitVec

def Memory.store64 (memory : Memory) (a : Nat) (v : BitVec 64) : Memory := fun k =>
  if a ≤ k ∧ k < a + 8 then UInt8.ofBitVec (v.extractLsb' (8 * (k - a)) 8) else memory k

theorem Memory.store64_frame {memory : Memory} {a k : Nat} {v : BitVec 64}
    (outside : ¬ (a ≤ k ∧ k < a + 8)) : memory.store64 a v k = memory k :=
  if_neg outside

/-- Stores through a list of addresses, the values being those of the list. -/
def Memory.storeAll (memory : Memory) : List (Nat × BitVec 64) → Memory
  | [] => memory
  | (a, v) :: rest => (memory.store64 a v).storeAll rest

theorem Memory.storeAll_append (memory : Memory) (stores more : List (Nat × BitVec 64)) :
    memory.storeAll (stores ++ more) = (memory.storeAll stores).storeAll more := by
  induction stores generalizing memory with
  | nil => rfl
  | cons s stores ih => exact ih _

theorem Memory.storeAll_frame {memory : Memory} {stores : List (Nat × BitVec 64)} {k : Nat}
    (outside : ∀ s ∈ stores, ¬ (s.1 ≤ k ∧ k < s.1 + 8)) : memory.storeAll stores k = memory k := by
  induction stores generalizing memory with
  | nil => rfl
  | cons s stores ih =>
      rw [storeAll, ih fun t ht => outside t (List.mem_cons_of_mem _ ht)]
      exact store64_frame (outside s List.mem_cons_self)

theorem Memory.load64_congr {m n : Memory} {a : Nat}
    (same : ∀ k, a ≤ k → k < a + 8 → m k = n k) : m.load64 a = n.load64 a := by
  simp only [load64, same a (by omega) (by omega), same (a + 1) (by omega) (by omega),
    same (a + 2) (by omega) (by omega), same (a + 3) (by omega) (by omega),
    same (a + 4) (by omega) (by omega), same (a + 5) (by omega) (by omega),
    same (a + 6) (by omega) (by omega), same (a + 7) (by omega) (by omega)]

theorem Memory.load64_store64_self (memory : Memory) (a : Nat) (v : BitVec 64) :
    (memory.store64 a v).load64 a = v := by
  have byte : ∀ i < 8, memory.store64 a v (a + i) = UInt8.ofBitVec (v.extractLsb' (8 * i) 8) := by
    intro i small
    have inside : a ≤ a + i ∧ a + i < a + 8 := by omega
    simp [store64, inside]
  have first : memory.store64 a v a = UInt8.ofBitVec (v.extractLsb' 0 8) := byte 0 (by omega)
  rw [load64, byte 7 (by omega), byte 6 (by omega), byte 5 (by omega), byte 4 (by omega),
    byte 3 (by omega), byte 2 (by omega), byte 1 (by omega), first]
  apply BitVec.eq_of_getLsbD_eq
  intro i bound
  simp only [BitVec.getLsbD_append, BitVec.getLsbD_extractLsb']
  grind

/-- The words at two addresses have no byte in common. -/
def Disjoint8 (a b : Nat) : Prop := a + 8 ≤ b ∨ b + 8 ≤ a

instance (a b : Nat) : Decidable (Disjoint8 a b) := inferInstanceAs (Decidable (_ ∨ _))

theorem Disjoint8.symm {a b : Nat} (h : Disjoint8 a b) : Disjoint8 b a := Or.symm h

theorem Memory.store64_comm {memory : Memory} {a b : Nat} {v w : BitVec 64}
    (disjoint : Disjoint8 a b) :
    (memory.store64 a v).store64 b w = (memory.store64 b w).store64 a v := by
  funext k
  by_cases first : a ≤ k ∧ k < a + 8
  · have outside : ¬ (b ≤ k ∧ k < b + 8) := by
      rcases disjoint with h | h <;> omega
    rw [store64_frame outside]
    simp [store64, first]
  · rw [store64_frame (a := a) first]
    by_cases second : b ≤ k ∧ k < b + 8
    · simp [store64, second]
    · rw [store64_frame second, store64_frame second, store64_frame first]

section Stores

variable {stores : List (Nat × BitVec 64)} {a : Nat} {v : BitVec 64}

theorem Memory.load64_storeAll_disjoint {memory : Memory}
    (disjoint : ∀ s ∈ stores, Disjoint8 s.1 a) :
    (memory.storeAll stores).load64 a = memory.load64 a := by
  refine load64_congr fun k lower upper => storeAll_frame fun s member => ?_
  rcases disjoint s member with h | h <;> omega

/-- A word that was stored is read back when no other store overlaps it. -/
theorem Memory.load64_storeAll {memory : Memory}
    (disjoint : stores.Pairwise fun s t => Disjoint8 s.1 t.1) (member : (a, v) ∈ stores) :
    (memory.storeAll stores).load64 a = v := by
  induction stores generalizing memory with
  | nil => cases member
  | cons s stores ih =>
      have ⟨apart, disjoint⟩ := List.pairwise_cons.mp disjoint
      rw [storeAll]
      rcases List.mem_cons.mp member with rfl | member
      · rw [load64_storeAll_disjoint fun t later => (apart t later).symm, load64_store64_self]
      · exact ih disjoint member

theorem Memory.storeAll_perm {memory : Memory} {others : List (Nat × BitVec 64)}
    (disjoint : stores.Pairwise fun s t => Disjoint8 s.1 t.1) (perm : stores.Perm others) :
    memory.storeAll stores = memory.storeAll others := by
  induction perm generalizing memory with
  | nil => rfl
  | cons s perm ih => exact ih (List.pairwise_cons.mp disjoint).2
  | swap s t rest =>
      have apart := (List.pairwise_cons.mp disjoint).1 s List.mem_cons_self
      simp only [storeAll, store64_comm apart]
  | trans first second ihFirst ihSecond =>
      have symm : ∀ {s t : Nat × BitVec 64}, Disjoint8 s.1 t.1 → Disjoint8 t.1 s.1 := .symm
      exact (ihFirst disjoint).trans (ihSecond ((first.pairwise_iff symm).mp disjoint))

end Stores

end DseFmi.Library
