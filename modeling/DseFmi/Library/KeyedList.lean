import Mathlib.Data.List.AList
import Mathlib.Data.List.Induction

/-!
# Lists with distinct keys

Elements of a list under keys that no two of them share. Such a list is searched with the
same result in every order, and inserted into a map it is found there.
-/

namespace DseFmi.Library

variable {α κ : Type} [DecidableEq κ] {key : α → κ}

theorem find?_key_eq_some_iff {items : List α} (distinct : (items.map key).Nodup) {k : κ} {a : α} :
    items.find? (fun b => key b = k) = some a ↔ a ∈ items ∧ key a = k := by
  induction items with
  | nil => exact ⟨(nomatch ·), fun both => absurd both.1 List.not_mem_nil⟩
  | cons b items ih =>
      obtain ⟨fresh, distinct⟩ := List.nodup_cons.mp distinct
      by_cases here : key b = k
      · rw [List.find?_cons_of_pos (by simpa using here)]
        constructor
        · rintro ⟨⟩
          exact ⟨List.mem_cons_self, here⟩
        · rintro ⟨member, same⟩
          rcases List.mem_cons.mp member with rfl | later
          · rfl
          · exact absurd (here.trans same.symm ▸ List.mem_map_of_mem later) fresh
      · rw [List.find?_cons_of_neg (by simpa using here), ih distinct, List.mem_cons]
        constructor
        · rintro ⟨later, same⟩
          exact ⟨.inr later, same⟩
        · rintro ⟨rfl | later, same⟩
          · exact absurd same here
          · exact ⟨later, same⟩

section Insert

variable {β : κ → Type} (value : (a : α) → β (key a))

theorem lookup_foldl_insert_of_not_mem {items : List α} {k : κ} (other : k ∉ items.map key)
    (map : AList β) :
    (items.foldl (fun map a => map.insert (key a) (value a)) map).lookup k = map.lookup k := by
  induction items generalizing map with
  | nil => rfl
  | cons a items ih =>
      have different : k ≠ key a := fun same => other (same ▸ List.mem_cons_self)
      rw [List.foldl_cons, ih fun later => other (List.mem_cons_of_mem _ later)]
      exact AList.lookup_insert_ne different

theorem lookup_foldl_insert_of_mem {items : List α} (distinct : (items.map key).Nodup) {a : α}
    (member : a ∈ items) (map : AList β) :
    (items.foldl (fun map a => map.insert (key a) (value a)) map).lookup (key a) =
      some (value a) := by
  induction items generalizing map with
  | nil => exact absurd member List.not_mem_nil
  | cons b items ih =>
      obtain ⟨fresh, distinct⟩ := List.nodup_cons.mp distinct
      rcases List.mem_cons.mp member with rfl | later
      · rw [List.foldl_cons, lookup_foldl_insert_of_not_mem value fresh]
        exact AList.lookup_insert map
      · exact ih distinct later _

end Insert

/-- Of several values that are inserted under one key, the last one is found. -/
theorem lookup_foldl_insert_last {β γ : Type} (value : γ → β) (items : List (κ × γ)) (k : κ)
    (map : AList fun _ : κ => β) :
    (items.foldl (fun map a => map.insert a.1 (value a.2)) map).lookup k =
      (((items.filter fun a => a.1 = k).getLast?.map fun a => value a.2).or (map.lookup k)) := by
  induction items using List.reverseRecOn with
  | nil => rfl
  | append_singleton items a ih =>
      rw [List.foldl_concat, List.filter_append]
      by_cases here : a.1 = k
      · subst here
        rw [AList.lookup_insert]
        simp
      · rw [AList.lookup_insert_ne fun same => here same.symm, ih]
        simp [here]

section Agreement

variable {β : Type} {value : α → β} {items : List α}

theorem exists_lookup_foldl_insert {k : κ} (used : k ∈ items.map key)
    (map : AList fun _ : κ => β) :
    ∃ a ∈ items, key a = k ∧
      (items.foldl (fun map a => map.insert (key a) (value a)) map).lookup k = some (value a) := by
  induction items generalizing map with
  | nil => exact absurd used List.not_mem_nil
  | cons b items ih =>
      by_cases later : k ∈ items.map key
      · obtain ⟨a, last, same, found⟩ := ih later (map.insert (key b) (value b))
        exact ⟨a, List.mem_cons_of_mem b last, same, found⟩
      · have here : k = key b := (List.mem_cons.mp used).resolve_right later
        subst here
        refine ⟨b, List.mem_cons_self, rfl, ?_⟩
        rw [List.foldl_cons, lookup_foldl_insert_of_not_mem (β := fun _ => β) value later]
        exact AList.lookup_insert map

/-- Everything that is inserted is found when what shares a key shares its value. -/
theorem forall_lookup_foldl_insert_iff {map : AList fun _ : κ => β} :
    (∀ a ∈ items, (items.foldl (fun map a => map.insert (key a) (value a)) map).lookup (key a) =
        some (value a)) ↔
      ∀ a ∈ items, ∀ b ∈ items, key a = key b → value a = value b := by
  constructor
  · intro found a first b second same
    have both := found a first
    rw [same, found b second] at both
    exact (Option.some.inj both).symm
  · intro agree a member
    obtain ⟨b, last, same, found⟩ := exists_lookup_foldl_insert (List.mem_map_of_mem member) map
    rw [found, agree b last a member same]

end Agreement

end DseFmi.Library
