import Mathlib.Data.List.ProdSigma
import Mathlib.Data.List.Dedup
import Mathlib.Data.List.Perm.Basic

/-!
# Sorting by repeated filtering

A list is scanned once for every key, in key order, and the elements carrying the
key are appended to the result. The outcome is a stable sort; no comparison of
elements is made, and the key order is whatever the list of keys says it is.
-/

namespace DseFmi.Library

universe u v w
variable {α : Type u} {κ : Type v} [DecidableEq κ]

/-- One pass over `xs` for each key. -/
def bucketSort (keys : List κ) (key : α → κ) (xs : List α) : List α :=
  keys.flatMap fun k => xs.filter fun x => key x = k

theorem mem_bucketSort {keys : List κ} {key : α → κ} {xs : List α} {x : α} :
    x ∈ bucketSort keys key xs ↔ x ∈ xs ∧ key x ∈ keys := by
  simp only [bucketSort, List.mem_flatMap, List.mem_filter, decide_eq_true_eq]
  constructor
  · rintro ⟨k, hk, hx, rfl⟩
    exact ⟨hx, hk⟩
  · rintro ⟨hx, hk⟩
    exact ⟨key x, hk, hx, rfl⟩

/-- Elements whose key is not scanned do not matter. -/
theorem bucketSort_filter {keys : List κ} {key : α → κ} (p : α → Bool) (xs : List α)
    (h : ∀ x ∈ xs, key x ∈ keys → p x = true) :
    bucketSort keys key (xs.filter p) = bucketSort keys key xs := by
  simp only [bucketSort]
  apply List.flatMap_congr
  intro k hk
  rw [List.filter_filter]
  apply List.filter_congr
  intro x hx
  by_cases same : key x = k
  · simp [same, h x hx (same ▸ hk)]
  · simp [same]

theorem bucketSort_perm {keys : List κ} {key : α → κ} {xs : List α} (distinct : keys.Nodup)
    (covered : ∀ x ∈ xs, key x ∈ keys) : (bucketSort keys key xs).Perm xs := by
  induction keys generalizing xs with
  | nil =>
    have : xs = [] := List.eq_nil_iff_forall_not_mem.mpr
      (fun x hx => List.not_mem_nil (covered x hx))
    simp [this, bucketSort]
  | cons k ks ih =>
    have fresh : k ∉ ks := (List.nodup_cons.mp distinct).1
    have rest : bucketSort ks key xs = bucketSort ks key (xs.filter fun x => !decide (key x = k)) :=
      (bucketSort_filter _ _ (by
        intro x _ hk
        simpa using fun (same : key x = k) => fresh (same ▸ hk))).symm
    have sorted := @ih (xs.filter fun x => !decide (key x = k))
      (List.nodup_cons.mp distinct).2 (by
        intro x hx
        obtain ⟨hx, differs⟩ := List.mem_filter.mp hx
        exact (List.mem_cons.mp (covered x hx)).resolve_left (by simpa using differs))
    have split : bucketSort (k :: ks) key xs =
        (xs.filter fun x => key x = k) ++ bucketSort ks key xs := rfl
    rw [split, rest]
    exact (sorted.append_left _).trans (List.filter_append_perm _ xs)

/-- Any order in which the keys are listed is the order of the result. -/
theorem bucketSort_pairwise {keys : List κ} {r : κ → κ → Prop} (ordered : keys.Pairwise r)
    (key : α → κ) (xs : List α) :
    (bucketSort keys key xs).Pairwise fun x y => key x = key y ∨ r (key x) (key y) := by
  refine List.pairwise_flatMap.mpr ⟨?_, ?_⟩
  · intro k _
    refine List.pairwise_iff_forall_sublist.mpr ?_
    intro x y sub
    have hx := (List.mem_filter.mp (sub.subset (List.mem_cons_self ..))).2
    have hy := (List.mem_filter.mp (sub.subset (List.mem_cons_of_mem _ (List.mem_cons_self ..)))).2
    exact .inl ((of_decide_eq_true hx).trans (of_decide_eq_true hy).symm)
  · refine ordered.imp ?_
    intro k l related x hx y hy
    simp only [List.mem_filter, decide_eq_true_eq] at hx hy
    exact .inr (hx.2 ▸ hy.2 ▸ related)

/-- Elements of one key keep the order they came in. -/
theorem bucketSort_stable {keys : List κ} (distinct : keys.Nodup) {k : κ} (scanned : k ∈ keys)
    (key : α → κ) (xs : List α) :
    ((bucketSort keys key xs).filter fun x => key x = k) = xs.filter fun x => key x = k := by
  induction keys with
  | nil => exact absurd scanned List.not_mem_nil
  | cons l ls ih =>
    have split : bucketSort (l :: ls) key xs =
        (xs.filter fun x => key x = l) ++ bucketSort ls key xs := rfl
    obtain ⟨fresh, distinct⟩ := List.nodup_cons.mp distinct
    rw [split, List.filter_append, List.filter_filter]
    by_cases same : l = k
    · subst same
      have empty : ((bucketSort ls key xs).filter fun x => key x = l) = [] := by
        apply List.filter_eq_nil_iff.mpr
        intro x hx
        simpa using fun (same : key x = l) => fresh (same ▸ (mem_bucketSort.mp hx).2)
      simp [empty]
    · have empty : (xs.filter fun x => decide (key x = k) && decide (key x = l)) = [] := by
        apply List.filter_eq_nil_iff.mpr
        intro x _
        simp only [Bool.and_eq_true, decide_eq_true_eq, not_and]
        exact fun hk hl => same (hl.symm.trans hk)
      rw [empty, List.nil_append]
      exact ih distinct ((List.mem_cons.mp scanned).resolve_left (fun h => same h.symm))

def Before (l : List κ) (a b : κ) : Prop := l.idxOf a < l.idxOf b

instance (l : List κ) (a b : κ) : Decidable (Before l a b) := inferInstanceAs (Decidable (_ < _))

instance (l : List κ) : IsTrans κ (Before l) := ⟨fun _ _ _ => Nat.lt_trans⟩

instance (l : List κ) : Std.Irrefl (Before l) := ⟨fun _ => Nat.lt_irrefl _⟩

theorem pairwise_before {l : List κ} (distinct : l.Nodup) : l.Pairwise (Before l) := by
  refine List.pairwise_iff_getElem.mpr ?_
  intro i j hi hj less
  simpa [Before, distinct.idxOf_getElem] using less

variable {ι : Type w}

omit [DecidableEq κ] in
theorem pairwise_product {l : List κ} {m : List ι} {r : κ → κ → Prop} {s : ι → ι → Prop}
    (hl : l.Pairwise r) (hm : m.Pairwise s) : (l ×ˢ m).Pairwise (Prod.Lex r s) := by
  refine List.pairwise_flatMap.mpr ⟨?_, ?_⟩
  · intro a _
    exact List.pairwise_map.mpr (hm.imp fun related => Prod.Lex.right a related)
  · refine hl.imp ?_
    intro a b related x hx y hy
    obtain ⟨_, _, rfl⟩ := List.mem_map.mp hx
    obtain ⟨_, _, rfl⟩ := List.mem_map.mp hy
    exact Prod.Lex.left _ _ related

end DseFmi.Library
