import Mathlib.Data.List.SplitBy
import Mathlib.Data.List.Chain

/-!
# Grouping a list into runs of equal keys

A single pass keeps the key of the run being collected and emits the run when the
key changes; what is left over is emitted at the end. The pass computes
`List.splitBy`, whatever key it starts from. When the list is ordered by its keys,
the runs carry pairwise different keys.
-/

namespace DseFmi.Library

universe u v
variable {α : Type u} {κ : Type v} [DecidableEq κ]

/-- The runs emitted so far, and the run being collected with its key. -/
structure Runs (α : Type u) (κ : Type v) where
  emitted : List (κ × List α)
  key : κ
  pending : List α

def Runs.start (key : κ) : Runs α κ := ⟨[], key, []⟩

/-- Emit the run being collected, unless it is empty. -/
def Runs.flush (s : Runs α κ) : List (κ × List α) :=
  if s.pending = [] then s.emitted else s.emitted ++ [(s.key, s.pending)]

def Runs.step (key : α → κ) (s : Runs α κ) (x : α) : Runs α κ :=
  if s.key = key x then { s with pending := s.pending ++ [x] }
  else { emitted := s.flush, key := key x, pending := [x] }

def runs (key : α → κ) (start : κ) (xs : List α) : List (κ × List α) :=
  (xs.foldl (Runs.step key) (.start start)).flush

def sameKey (key : α → κ) (x y : α) : Bool := decide (key x = key y)

@[simp] theorem sameKey_iff {key : α → κ} {x y : α} : sameKey key x y = true ↔ key x = key y := by
  simp [sameKey]

/-- The accumulators of the pass are those of `List.splitBy`. -/
private theorem runs_loop (key : α → κ) (xs : List α) (a : α) (g : List α)
    (done : List (List α)) (emitted : List (κ × List α))
    (same : emitted.map Prod.snd = done.reverse) :
    ((xs.foldl (Runs.step key) ⟨emitted, key a, (a :: g).reverse⟩).flush).map Prod.snd =
      List.splitBy.loop (sameKey key) xs a g done := by
  induction xs generalizing a g done emitted with
  | nil => simp [Runs.flush, List.splitBy.loop, same]
  | cons x xs ih =>
    rw [List.foldl_cons, List.splitBy.loop]
    by_cases equal : key a = key x
    · have continued : sameKey key a x = true := sameKey_iff.mpr equal
      rw [continued]
      have := ih x (a :: g) done emitted same
      simpa [Runs.step, equal] using this
    · have ended : sameKey key a x = false := by simp [sameKey, equal]
      rw [ended]
      have := ih x [] ((a :: g).reverse :: done) (emitted ++ [(key a, (a :: g).reverse)])
        (by simp [same])
      simpa [Runs.step, Runs.flush, equal] using this

theorem runs_snd (key : α → κ) (start : κ) (xs : List α) :
    (runs key start xs).map Prod.snd = xs.splitBy (sameKey key) := by
  cases xs with
  | nil => simp [runs, Runs.start, Runs.flush]
  | cons x xs =>
    have first : Runs.step key (.start start) x = ⟨[], key x, [x].reverse⟩ := by
      by_cases equal : start = key x <;> simp [Runs.step, Runs.start, Runs.flush, equal]
    rw [runs, List.foldl_cons, first]
    exact runs_loop key xs x [] [] [] rfl

theorem runs_flatten (key : α → κ) (start : κ) (xs : List α) :
    ((runs key start xs).map Prod.snd).flatten = xs := by
  rw [runs_snd, List.flatten_splitBy]

/-- A run is not empty and all its elements carry the key it is tagged with. -/
structure IsRun (key : α → κ) (b : κ × List α) : Prop where
  nonempty : b.2 ≠ []
  tagged : ∀ x ∈ b.2, key x = b.1

/-- The invariant of the pass: emitted runs are runs, and the pending one would be. -/
structure Runs.Tagged (key : α → κ) (s : Runs α κ) : Prop where
  emitted : ∀ b ∈ s.emitted, IsRun key b
  pending : ∀ x ∈ s.pending, key x = s.key

omit [DecidableEq κ] in
theorem Runs.Tagged.flush {key : α → κ} {s : Runs α κ} (h : s.Tagged key) :
    ∀ b ∈ s.flush, IsRun key b := by
  intro b hb
  unfold Runs.flush at hb
  split at hb
  next => exact h.emitted b hb
  next nonempty =>
    rcases List.mem_append.mp hb with hb | hb
    · exact h.emitted b hb
    · rw [List.mem_singleton.mp hb]
      exact ⟨nonempty, h.pending⟩

theorem Runs.Tagged.step {key : α → κ} {s : Runs α κ} (h : s.Tagged key) (x : α) :
    (s.step key x).Tagged key := by
  unfold Runs.step
  split
  next equal =>
    refine ⟨h.emitted, ?_⟩
    intro y hy
    rcases List.mem_append.mp hy with hy | hy
    · exact h.pending y hy
    · rw [List.mem_singleton.mp hy, equal]
  next =>
    refine ⟨h.flush, ?_⟩
    intro y hy
    rw [List.mem_singleton.mp hy]

theorem isRun_of_mem_runs {key : α → κ} {start : κ} {xs : List α} {b : κ × List α}
    (hb : b ∈ runs key start xs) : IsRun key b := by
  have tagged : ∀ (xs : List α) (s : Runs α κ), s.Tagged key →
      (xs.foldl (Runs.step key) s).Tagged key := by
    intro xs
    induction xs with
    | nil => exact fun s h => h
    | cons x xs ih => exact fun s h => ih _ (h.step x)
  exact (tagged xs (.start start) ⟨by simp [Runs.start], by simp [Runs.start]⟩).flush b hb

/-- Adjacent runs differ in their keys, so an ordered list yields ordered runs. -/
theorem runs_pairwise {key : α → κ} (start : κ) {xs : List α} {r : κ → κ → Prop} [IsTrans κ r]
    (ordered : xs.Pairwise fun x y => key x = key y ∨ r (key x) (key y)) :
    (runs key start xs).Pairwise fun b c => r b.1 c.1 := by
  have adjacent := List.isChain_getLast_head_splitBy (sameKey key) xs
  have across : ((runs key start xs).map Prod.snd).Pairwise
      fun b c => ∀ x ∈ b, ∀ y ∈ c, key x = key y ∨ r (key x) (key y) := by
    rw [← runs_flatten key start xs] at ordered
    exact (List.pairwise_flatten.mp ordered).2
  rw [← runs_snd key start xs, List.isChain_map] at adjacent
  have chain : (runs key start xs).IsChain fun b c => r b.1 c.1 := by
    refine List.isChain_iff_getElem.mpr ?_
    intro i hi
    have hb := isRun_of_mem_runs (List.getElem_mem (Nat.lt_of_succ_lt hi))
    have hc := isRun_of_mem_runs (List.getElem_mem hi)
    obtain ⟨nb, nc, changed⟩ := List.isChain_iff_getElem.mp adjacent i hi
    have related := List.pairwise_iff_getElem.mp (List.pairwise_map.mp across) i (i + 1)
      (Nat.lt_of_succ_lt hi) hi (Nat.lt_succ_self i) _ (List.getLast_mem nb) _ (List.head_mem nc)
    rw [hb.tagged _ (List.getLast_mem nb), hc.tagged _ (List.head_mem nc)] at related
    refine related.resolve_left ?_
    intro equal
    rw [sameKey, hb.tagged _ (List.getLast_mem nb), hc.tagged _ (List.head_mem nc)] at changed
    simp [equal] at changed
  have : IsTrans (κ × List α) fun b c => r b.1 c.1 :=
    ⟨fun _ _ _ => IsTrans.trans (r := r) _ _ _⟩
  exact List.isChain_iff_pairwise.mp chain

end DseFmi.Library
