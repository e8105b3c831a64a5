import Mathlib.Data.List.AList
import Mathlib.Tactic.Common

/-!
# Lists with an index

Entries are appended to a list, and a finite map leads from the key of an entry to its
position. Because the map leads to positions, what is written through it is seen in the
list. The keys are those of first occurrences, in the order they occurred.
-/

namespace DseFmi.Library

universe u v
variable {α : Type u} {κ : Type v} [DecidableEq κ]

/-- The map from keys to positions in a list of keys. -/
abbrev Positions (κ : Type v) [DecidableEq κ] := AList fun _ : κ => Nat

/-- The map finds exactly the keys of the list, each at its position. -/
def Indexes (index : Positions κ) (keys : List κ) : Prop :=
  ∀ k i, index.lookup k = some i ↔ keys[i]? = some k

theorem Indexes.empty : Indexes (∅ : Positions κ) [] := by
  intro k i
  simp

theorem Indexes.mem_iff {index : Positions κ} {keys : List κ} (h : Indexes index keys) (k : κ) :
    (∃ i, index.lookup k = some i) ↔ k ∈ keys := by
  simp only [h k, List.mem_iff_getElem?]

theorem Indexes.lookup_eq_none {index : Positions κ} {keys : List κ} (h : Indexes index keys)
    {k : κ} : index.lookup k = none ↔ k ∉ keys := by
  rw [← h.mem_iff k, Option.eq_none_iff_forall_ne_some, not_exists]

/-- Positions determine keys, so no key is listed twice. -/
theorem Indexes.nodup {index : Positions κ} {keys : List κ} (h : Indexes index keys) :
    keys.Nodup := by
  refine List.nodup_iff_getElem?_ne_getElem?.mpr ?_
  intro i j less hj equal
  have found := (h keys[j] j).mpr (List.getElem?_eq_getElem hj)
  rw [(h keys[j] i).mpr (equal.trans (List.getElem?_eq_getElem hj))] at found
  exact Nat.ne_of_lt less (Option.some.inj found)

theorem Indexes.append {index : Positions κ} {keys : List κ} (h : Indexes index keys) {k : κ}
    (fresh : k ∉ keys) : Indexes (index.insert k keys.length) (keys ++ [k]) := by
  intro l i
  by_cases same : l = k
  · subst same
    rw [AList.lookup_insert, Option.some.injEq]
    constructor
    · rintro rfl
      simp
    · intro found
      by_contra other
      rcases Nat.lt_or_gt_of_ne other with beyond | inside
      · rw [List.getElem?_eq_none (by simp; omega)] at found
        cases found
      · rw [List.getElem?_append_left inside] at found
        exact fresh (List.mem_of_getElem? found)
  · rw [AList.lookup_insert_ne same, h l i]
    rcases Nat.lt_trichotomy i keys.length with inside | rfl | beyond
    · rw [List.getElem?_append_left inside]
    · simp [Ne.symm same]
    · rw [List.getElem?_eq_none (by omega), List.getElem?_eq_none (by simp; omega)]

/-- Following the map leads to the entry with the key. -/
theorem Indexes.bind_lookup_iff {index : Positions κ} {xs : List α} {key : α → κ}
    (h : Indexes index (xs.map key)) {k : κ} {x : α} :
    ((index.lookup k).bind fun i => xs[i]?) = some x ↔ x ∈ xs ∧ key x = k := by
  rw [Option.bind_eq_some_iff]
  constructor
  · rintro ⟨i, found, hx⟩
    have keyed := (h k i).mp found
    rw [List.getElem?_map, hx] at keyed
    exact ⟨List.mem_of_getElem? hx, Option.some.inj keyed⟩
  · rintro ⟨hx, rfl⟩
    obtain ⟨i, hi⟩ := List.mem_iff_getElem?.mp hx
    exact ⟨i, (h _ i).mpr (by rw [List.getElem?_map, hi]; rfl), hi⟩

theorem eraseDups_concat (xs : List κ) (x : κ) :
    (xs ++ [x]).eraseDups = if x ∈ xs then xs.eraseDups else xs.eraseDups ++ [x] := by
  rw [List.eraseDups_append]
  by_cases old : x ∈ xs <;> simp [List.removeAll, old, List.eraseDups_cons]

/-- More elements leave the first occurrences in front. -/
theorem eraseDups_prefix (xs ys : List κ) : xs.eraseDups <+: (xs ++ ys).eraseDups := by
  rw [List.eraseDups_append]
  exact List.prefix_append _ _

/-- Nothing is added by elements that occurred before. -/
theorem eraseDups_append_of_subset {xs ys : List κ} (old : ys ⊆ xs) :
    (xs ++ ys).eraseDups = xs.eraseDups := by
  have none_new : ys.removeAll xs = [] := by
    apply List.filter_eq_nil_iff.mpr
    intro y hy
    simpa using old hy
  rw [List.eraseDups_append, none_new, List.eraseDups_nil, List.append_nil]

end DseFmi.Library
