import Mathlib.Algebra.GroupWithZero.Nat
import Mathlib.Data.List.Nodup
import Mathlib.Data.List.Range

/-!
# Identifiers from a counter

Each draw takes a block of identifiers that starts at the counter, and then advances the
counter by a step of its own. The identifiers are distinct as long as no draw but the last
advances the counter by less than it takes.
-/

namespace DseFmi.Library

structure Draw where
  width : Nat
  advance : Nat
  deriving DecidableEq, Repr

def counter (base : Nat) (draws : List Draw) : Nat := base + (draws.map Draw.advance).sum

def ids : Nat → List Draw → List Nat
  | _, [] => []
  | base, d :: draws => List.range' base d.width ++ ids (base + d.advance) draws

@[simp] theorem counter_nil (base : Nat) : counter base [] = base := rfl

theorem counter_cons (base : Nat) (d : Draw) (draws : List Draw) :
    counter base (d :: draws) = counter (base + d.advance) draws := by
  simp [counter, Nat.add_assoc]

theorem ids_append (base : Nat) (draws more : List Draw) :
    ids base (draws ++ more) = ids base draws ++ ids (counter base draws) more := by
  induction draws generalizing base with
  | nil => rfl
  | cons d draws ih => rw [List.cons_append, ids, ids, ih, counter_cons, List.append_assoc]

theorem le_of_mem_ids {n base : Nat} {draws : List Draw} (member : n ∈ ids base draws) :
    base ≤ n := by
  induction draws generalizing base with
  | nil => exact absurd member List.not_mem_nil
  | cons d draws ih =>
      cases List.mem_append.mp member with
      | inl first => exact (List.mem_range'_1.mp first).1
      | inr later => exact Nat.le_trans (Nat.le_add_right _ _) (ih later)

theorem ids_replicate (base n : Nat) : ids base (List.replicate n ⟨1, 1⟩) = List.range' base n := by
  induction n generalizing base with
  | zero => rfl
  | succ n ih =>
      rw [List.replicate_succ, ids, ih]
      rfl

theorem counter_replicate (base n : Nat) : counter base (List.replicate n ⟨1, 1⟩) = base + n := by
  simp [counter]

theorem ids_nodup_iff {draws : List Draw} (positive : ∀ d ∈ draws, 0 < d.width) (base : Nat) :
    (ids base draws).Nodup ↔ ∀ d ∈ draws.dropLast, d.width ≤ d.advance := by
  induction draws generalizing base with
  | nil => simp [ids]
  | cons d draws ih =>
      have rest := ih (fun e later => positive e (List.mem_cons_of_mem d later)) (base + d.advance)
      cases draws with
      | nil => simp [ids, List.nodup_range']
      | cons e draws =>
          rw [ids, List.nodup_append, rest, List.dropLast_cons_cons, List.forall_mem_cons]
          constructor
          · intro ⟨_, bounded, apart⟩
            refine ⟨?_, bounded⟩
            by_contra short
            -- the next draw starts inside the block
            have next : base + d.advance ∈ ids (base + d.advance) (e :: draws) := by
              refine List.mem_append_left _ (List.mem_range'_1.mpr ?_)
              have := positive e (List.mem_cons_of_mem d List.mem_cons_self)
              omega
            have inside : base + d.advance ∈ List.range' base d.width :=
              List.mem_range'_1.mpr (by omega)
            exact apart _ inside _ next rfl
          · intro ⟨wide, bounded⟩
            refine ⟨List.nodup_range', bounded, ?_⟩
            intro a first b later equal
            have low := le_of_mem_ids later
            have high := (List.mem_range'_1.mp first).2
            omega

end DseFmi.Library
