import Mathlib.Data.List.TakeWhile
import Mathlib.Data.List.MinMax
import Mathlib.Tactic.Common

/-!
# A queue that is released over time

Every call releases the entries at the front of the queue that are due. An entry that is not
due holds back everything behind it, so that an entry leaves the queue with the first call
that has reached the due times of all entries up to it.
-/

namespace DseFmi.Library

variable {α δ : Type} [LinearOrder δ] (due : α → δ)

def releases : List δ → List α → List (List α)
  | [], _ => []
  | time :: times, queue =>
      queue.takeWhile (fun x => due x ≤ time) ::
        releases times (queue.dropWhile fun x => due x ≤ time)

/-- The time from which on nothing up to the entry `i` is held back. -/
def latest (queue : List α) (i : Nat) : WithBot δ := ((queue.take (i + 1)).map due).maximum

variable {due}

@[simp] theorem length_releases (times : List δ) (queue : List α) :
    (releases due times queue).length = times.length := by
  induction times generalizing queue with
  | nil => rfl
  | cons time times ih => simp [releases, ih]

theorem releases_map {β : Type} (f : β → α) (times : List δ) (queue : List β) :
    releases due times (queue.map f) =
      (releases (fun x => due (f x)) times queue).map (List.map f) := by
  induction times generalizing queue with
  | nil => rfl
  | cons time times ih =>
      simp only [releases, List.map_cons, ← ih, List.takeWhile_map, List.dropWhile_map]
      rfl

theorem exists_due_le [Nonempty δ] (queue : List α) : ∃ time, ∀ x ∈ queue, due x ≤ time := by
  induction queue with
  | nil => exact ⟨Classical.arbitrary δ, by simp⟩
  | cons x queue ih =>
      obtain ⟨time, all⟩ := ih
      refine ⟨max (due x) time, ?_⟩
      rw [List.forall_mem_cons]
      exact ⟨le_max_left _ _, fun y member => (all y member).trans (le_max_right _ _)⟩

theorem releases_inj [Nonempty δ] {queue other : List α} :
    (∀ times, releases due times queue = releases due times other) ↔ queue = other := by
  constructor
  · intro same
    obtain ⟨time, all⟩ := @exists_due_le _ _ _ due _ (queue ++ other)
    have every : ∀ entries, (∀ x ∈ entries, due x ≤ time) →
        releases due [time] entries = [entries] := by
      intro entries reached
      have front : entries.takeWhile (fun x => due x ≤ time) = entries :=
        List.takeWhile_eq_self_iff.mpr fun x member => decide_eq_true (reached x member)
      rw [releases, front]
      rfl
    have first := every queue fun x member => all x (List.mem_append_left _ member)
    have second := every other fun x member => all x (List.mem_append_right _ member)
    have lists := same [time]
    rw [first, second] at lists
    exact (List.cons.inj lists).1
  · rintro rfl times
    rfl

/-- Taking the front in two rounds, when the second condition is the weaker one. -/
theorem takeWhile_append_takeWhile_dropWhile {p q : α → Bool}
    (weaker : ∀ x, p x = true → q x = true)
    (xs : List α) : xs.takeWhile p ++ (xs.dropWhile p).takeWhile q = xs.takeWhile q := by
  induction xs with
  | nil => rfl
  | cons x xs ih =>
      cases passes : p x with
      | true => simp [passes, weaker x passes, ih]
      | false => simp [passes]

theorem flatten_releases_isPrefix (times : List δ) (queue : List α) :
    (releases due times queue).flatten <+: queue := by
  induction times generalizing queue with
  | nil => exact List.nil_prefix
  | cons time times ih =>
      have rest := ih (queue.dropWhile fun x => due x ≤ time)
      rw [releases, List.flatten_cons]
      calc queue.takeWhile (fun x => due x ≤ time) ++ _
          <+: queue.takeWhile (fun x => due x ≤ time) ++
              queue.dropWhile (fun x => due x ≤ time) := (List.prefix_append_right_inj _).mpr rest
        _ = queue := List.takeWhile_append_dropWhile

/-- After a call the entries that it finds due have been released, and nothing else. -/
theorem flatten_take_releases {times : List δ} (ordered : times.Pairwise (· ≤ ·)) (queue : List α)
    {k : Nat} {time : δ} (call : times[k]? = some time) :
    ((releases due times queue).take (k + 1)).flatten = queue.takeWhile fun x => due x ≤ time := by
  induction times generalizing queue k with
  | nil => simp at call
  | cons first times ih =>
      obtain ⟨later, ordered⟩ := List.pairwise_cons.mp ordered
      cases k with
      | zero =>
          obtain rfl : first = time := by simpa using call
          simp [releases]
      | succ k =>
          have call : times[k]? = some time := by simpa using call
          have before : first ≤ time := later time (List.mem_of_getElem? call)
          rw [releases, List.take_succ_cons, List.flatten_cons, ih ordered _ call]
          apply takeWhile_append_takeWhile_dropWhile
          intro x passes
          exact decide_eq_true ((of_decide_eq_true passes).trans before)

theorem lt_length_takeWhile_iff {p : α → Bool} {xs : List α} {i : Nat} (inRange : i < xs.length) :
    i < (xs.takeWhile p).length ↔ ∀ x ∈ xs.take (i + 1), p x = true := by
  induction xs generalizing i with
  | nil => simp at inRange
  | cons x xs ih =>
      cases passes : p x with
      | false => simp [passes]
      | true =>
          cases i with
          | zero => simp [passes]
          | succ i =>
              have shorter : i < xs.length := by simpa using inRange
              simp [passes, ih shorter]

theorem latest_le_iff {queue : List α} {i : Nat} {time : δ} :
    latest due queue i ≤ time ↔ ∀ x ∈ queue.take (i + 1), due x ≤ time := by
  constructor
  · intro reached x member
    have bounded := List.le_maximum_of_mem' (List.mem_map_of_mem (f := due) member)
    exact WithBot.coe_le_coe.mp (bounded.trans reached)
  · intro reached
    apply List.maximum_le_of_forall_le
    intro t member
    obtain ⟨x, inFront, rfl⟩ := List.mem_map.mp member
    exact WithBot.coe_le_coe.mpr (reached x inFront)

/-- An entry is released by the first call that has reached the due times of all entries up to
it. -/
theorem released_iff {times : List δ} (ordered : times.Pairwise (· ≤ ·)) {queue : List α}
    {i k : Nat} (entry : i < queue.length) {time : δ} (call : times[k]? = some time) :
    (((releases due times queue).take k).flatten.length ≤ i ∧
        i < ((releases due times queue).take (k + 1)).flatten.length) ↔
      latest due queue i ≤ time ∧
        ∀ j earlier, j < k → times[j]? = some earlier → ¬ latest due queue i ≤ earlier := by
  have front : ∀ {j : Nat} {t : δ}, times[j]? = some t →
      (i < ((releases due times queue).take (j + 1)).flatten.length ↔
        latest due queue i ≤ t) := by
    intro j t at_j
    rw [flatten_take_releases ordered queue at_j, lt_length_takeWhile_iff entry, latest_le_iff]
    simp
  rw [front call, and_comm]
  apply and_congr_right
  intro _
  cases k with
  | zero => simp
  | succ k =>
      have bound : k + 1 < times.length := (List.getElem?_eq_some_iff.mp call).1
      have before : times[k]? = some times[k] := List.getElem?_eq_getElem (by omega)
      rw [← not_lt, front before]
      constructor
      · intro held j earlier inFront at_j reached
        have sorted : earlier ≤ times[k] := by
          obtain ⟨small, rfl⟩ := List.getElem?_eq_some_iff.mp at_j
          rcases (Nat.lt_succ_iff.mp inFront).lt_or_eq with less | rfl
          · exact List.pairwise_iff_getElem.mp ordered j k small (by omega) less
          · exact le_rfl
        exact held (reached.trans (WithBot.coe_le_coe.mpr sorted))
      · intro held
        exact held k times[k] (Nat.lt_succ_self k) before

end DseFmi.Library
