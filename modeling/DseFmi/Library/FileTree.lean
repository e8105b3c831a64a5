import DseFmi.Library.FileSystem
import Mathlib.Data.List.Induction

/-!
# File trees

The nodes at and below a location, each directory before its entries. A node is named by the
way that leads to it, the first name first.
-/

namespace DseFmi.Library.FileSystem

variable {N α : Type} [LinearOrder N]

def height (fs : FileSystem N α) : Nat := (fs.nodes.keys.map List.length).foldr max 0 + 1

theorem length_lt_height {fs : FileSystem N α} {p : Location N}
    (found : (fs.lookup p).isSome = true) : p.length < fs.height := by
  have listed : p.length ∈ fs.nodes.keys.map List.length := List.mem_map_of_mem (mem_keys found)
  rw [height, Nat.lt_succ_iff]
  generalize fs.nodes.keys.map List.length = lengths at listed
  induction lengths with
  | nil => exact absurd listed List.not_mem_nil
  | cons n lengths ih =>
      rw [List.foldr_cons]
      rcases List.mem_cons.mp listed with rfl | later
      · exact Nat.le_max_left _ _
      · exact (ih later).trans (Nat.le_max_right _ _)

/-- Whether the tree at a location is less deep than a bound. -/
def Shallow (fs : FileSystem N α) (bound : Nat) (p : Location N) : Prop :=
  ∀ r, (fs.lookup (r ++ p)).isSome = true → r.length < bound

theorem shallow_height (fs : FileSystem N α) (p : Location N) : fs.Shallow fs.height p := by
  intro r found
  have short := length_lt_height found
  rw [List.length_append] at short
  omega

theorem Shallow.entry {fs : FileSystem N α} {bound : Nat} {p : Location N}
    (shallow : fs.Shallow (bound + 1) p) (name : N) : fs.Shallow bound (name :: p) := by
  intro r found
  have short := shallow (r ++ [name]) (by rw [List.append_assoc]; exact found)
  rw [List.length_append, List.length_singleton] at short
  omega

/-- The nodes at and below a location, as far as the bound goes. -/
def below (fs : FileSystem N α) : Nat → Location N → List (List N × Node α)
  | 0, _ => []
  | bound + 1, p =>
      match fs.lookup p with
      | none => []
      | some .directory =>
          ([], .directory) :: (fs.readDir p).flatMap fun name =>
            (fs.below bound (name :: p)).map fun item => (name :: item.1, item.2)
      | some (.file content) => [([], .file content)]

theorem mem_below {fs : FileSystem N α} {bound : Nat} {p : Location N}
    (shallow : fs.Shallow bound p) {names : List N} {node : Node α} :
    (names, node) ∈ fs.below bound p ↔ fs.lookup (names.reverse ++ p) = some node := by
  induction bound generalizing p names with
  | zero =>
      refine ⟨fun member => absurd member List.not_mem_nil, fun found => ?_⟩
      exact absurd (shallow names.reverse (by rw [found]; rfl)) (Nat.not_lt_zero _)
  | succ bound ih =>
      rw [below]
      cases here : fs.lookup p with
      | none =>
          refine ⟨fun member => absurd member List.not_mem_nil, fun found => ?_⟩
          have upper := isSome_suffix (r := names.reverse) (by rw [found]; rfl)
          rw [here] at upper
          cases upper
      | some top =>
          cases top with
          | file content =>
              rw [List.mem_singleton, Prod.mk.injEq]
              cases names with
              | nil =>
                  rw [List.reverse_nil, List.nil_append, here, Option.some.injEq]
                  exact ⟨fun same => same.2.symm, fun same => ⟨rfl, same.symm⟩⟩
              | cons name names =>
                  rw [lookup_below_file here (by simp)]
                  exact ⟨fun same => (nomatch same.1), fun found => (nomatch found)⟩
          | directory =>
              rw [List.mem_cons, Prod.mk.injEq, List.mem_flatMap]
              cases names with
              | nil =>
                  rw [List.reverse_nil, List.nil_append, here, Option.some.injEq]
                  constructor
                  · rintro (same | ⟨name, _, member⟩)
                    · exact same.2.symm
                    · obtain ⟨_, _, other⟩ := List.mem_map.mp member
                      cases congrArg Prod.fst other
                  · exact fun same => .inl ⟨rfl, same.symm⟩
              | cons name names =>
                  rw [List.reverse_cons, List.append_assoc, List.singleton_append,
                    ← ih (shallow.entry name)]
                  constructor
                  · rintro (same | ⟨other, _, member⟩)
                    · cases same.1
                    · obtain ⟨item, listed, same⟩ := List.mem_map.mp member
                      obtain ⟨first, rfl⟩ := Prod.mk.inj same
                      obtain ⟨rfl, rfl⟩ := List.cons.inj first
                      exact listed
                  · intro listed
                    refine .inr ⟨name, ?_, List.mem_map.mpr ⟨(names, node), listed, rfl⟩⟩
                    have found := (ih (shallow.entry name)).mp listed
                    exact mem_readDir.mpr (isSome_suffix (by rw [found]; rfl))

theorem nodup_below (fs : FileSystem N α) (bound : Nat) (p : Location N) :
    ((fs.below bound p).map Prod.fst).Nodup := by
  induction bound generalizing p with
  | zero => exact List.nodup_nil
  | succ bound ih =>
      rw [below]
      split
      · exact List.nodup_nil
      · rw [List.map_cons, List.map_flatMap, List.nodup_cons]
        constructor
        · intro member
          obtain ⟨name, _, listed⟩ := List.mem_flatMap.mp member
          obtain ⟨item, mapped, empty⟩ := List.mem_map.mp listed
          obtain ⟨_, _, rfl⟩ := List.mem_map.mp mapped
          cases empty
        · rw [List.nodup_flatMap]
          constructor
          · intro name _
            rw [List.map_map]
            have tails := ih (name :: p)
            rw [← List.nodup_map_iff (List.cons_injective (a := name)), List.map_map] at tails
            exact tails
          · apply (nodup_readDir fs p).imp
            intro name other different way here there
            obtain ⟨item, mapped, rfl⟩ := List.mem_map.mp here
            obtain ⟨_, _, rfl⟩ := List.mem_map.mp mapped
            obtain ⟨item', mapped', same⟩ := List.mem_map.mp there
            obtain ⟨_, _, rfl⟩ := List.mem_map.mp mapped'
            exact different (List.cons.inj same).1.symm
      · exact List.nodup_singleton _

end DseFmi.Library.FileSystem
