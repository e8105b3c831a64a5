import DseFmi.Generate.SimBusChannel

/-!
# Iterations over selectors and labels

The selectors of a channel and the labels of a group are maps, which are gone through in an
order that may differ each time. The channel that is found does not depend on it.
-/

namespace DseFmi.Generate

abbrev Entry := Sigma fun _ : String => String

/-- The orders of the iterations for a channel: over its selectors, and over the labels for
each of the selectors. -/
structure Ranges where
  selectors : List Entry → List Entry
  labels : String → List Entry → List Entry
  selectors_perm : ∀ entries, (selectors entries).Perm entries
  labels_perm : ∀ selector entries, (labels selector entries).Perm entries

/-- The loop over the labels; `none` when the label of the selector has another value. -/
def labelLoop (selector selectorVal : String) : List Entry → Nat → Option Nat
  | [], selectorMatchCount => some selectorMatchCount
  | ⟨label, labelVal⟩ :: labels, selectorMatchCount =>
      if selector ≠ label then labelLoop selector selectorVal labels selectorMatchCount
      else if selectorVal ≠ labelVal then none
      else labelLoop selector selectorVal labels (selectorMatchCount + 1)

def selectorLoop (labels : String → List Entry) : List Entry → Nat → Option Nat
  | [], selectorMatchCount => some selectorMatchCount
  | ⟨selector, selectorVal⟩ :: selectors, selectorMatchCount => do
      let selectorMatchCount ←
        labelLoop selector selectorVal (labels selector) selectorMatchCount
      selectorLoop labels selectors selectorMatchCount

/-- The match count of a channel, with the maps in some order. -/
def Ranges.count (ranges : Ranges) (labels selectors : AList fun _ : String => String) :
    Option Nat :=
  selectorLoop (fun selector => ranges.labels selector labels.entries)
    (ranges.selectors selectors.entries) 0

def findChannelBy (ranges : Nat → Ranges) (models : List ModelDoc)
    (labels : AList fun _ : String => String) (model : String) :
    Nat → List Channel → Go (Option String)
  | _, [] => .ok none
  | j, channel :: channels => do
      let selected ← selectorChannel models model channel
      match selected.selectors with
      | none => findChannelBy ranges models labels model (j + 1) channels
      | some selectors =>
          if (ranges j).count labels selectors = some selectors.entries.length then do
            let name ← deref channel.name
            let _ ← deref selected.aliasName
            .ok (some name)
          else findChannelBy ranges models labels model (j + 1) channels

def findInstanceBy (ranges : Nat → Nat → Ranges) (models : List ModelDoc)
    (labels : AList fun _ : String => String) : Nat → List StackModel → Go (Option String)
  | _, [] => .ok none
  | i, model :: instances =>
      if model.name = "simbus" then findInstanceBy ranges models labels (i + 1) instances
      else do
        let channels ← deref model.channels
        match ← findChannelBy (ranges i) models labels model.model 0 channels with
        | some name => .ok (some name)
        | none => findInstanceBy ranges models labels (i + 1) instances

/-- `lookupSimBusChannelName` with the orders for each channel of each model instance. -/
def lookupSimBusChannelNameBy (ranges : Nat → Nat → Ranges) (sim : Simulation)
    (labels : AList fun _ : String => String) : Go (Except String String) :=
  match sim.stackDocs with
  | [none] => .ok (.error "stack contains no models")
  | [some instances] => do
      match ← findInstanceBy ranges sim.models labels 0 instances with
      | some name => .ok (.ok name)
      | none => .ok (.error "stack contains no Model:Channel with matching selectors")
  | docs =>
      .ok (.error ("simulation folder contains " ++ Nat.repr docs.length ++
        " Stacks, expected 1"))

def HasSelector (labels : AList fun _ : String => String) (e : Entry) : Prop :=
  labels.lookup e.1 = some e.2

section Count

variable {labels : AList fun _ : String => String}

theorem labelLoop_eq {selector selectorVal : String} {entries : List Entry}
    (keys : entries.NodupKeys) (count : Nat) :
    labelLoop selector selectorVal entries count =
      match entries.dlookup selector with
      | none => some count
      | some labelVal => if selectorVal ≠ labelVal then none else some (count + 1) := by
  induction entries generalizing count with
  | nil => rfl
  | cons entry entries ih =>
      obtain ⟨label, labelVal⟩ := entry
      rw [List.nodupKeys_cons] at keys
      rw [labelLoop]
      by_cases other : selector = label
      · subst other
        have absent : entries.dlookup selector = none := List.dlookup_eq_none.mpr keys.1
        simp only [ne_eq, not_true, if_false, List.dlookup_cons_eq, ih keys.2, absent]
      · rw [if_pos other, ih keys.2, List.dlookup_cons_ne _ _ other]

theorem selectorLoop_eq {ordered : String → List Entry}
    (perm : ∀ selector, (ordered selector).Perm labels.entries) (selectors : List Entry)
    (count : Nat) :
    selectorLoop ordered selectors count = countSelectors labels selectors count := by
  induction selectors generalizing count with
  | nil => rfl
  | cons entry selectors ih =>
      obtain ⟨selector, selectorVal⟩ := entry
      have keys : (ordered selector).NodupKeys :=
        (List.perm_nodupKeys (perm selector)).mpr labels.nodupKeys
      have found : (ordered selector).dlookup selector = labels.lookup selector :=
        List.perm_dlookup selector keys (perm selector)
      rw [selectorLoop, countSelectors, labelLoop_eq keys, found]
      cases labels.lookup selector with
      | none => exact ih count
      | some labelVal =>
          dsimp only
          split
          · rfl
          · exact ih (count + 1)

theorem le_of_countSelectors {selectors : List Entry} {count total : Nat}
    (counted : countSelectors labels selectors count = some total) :
    total ≤ count + selectors.length := by
  induction selectors generalizing count with
  | nil =>
      cases counted
      exact Nat.le_refl _
  | cons entry selectors ih =>
      rw [countSelectors] at counted
      rw [List.length_cons]
      split at counted
      · have later := ih counted
        omega
      · split at counted
        · cases counted
        · have later := ih counted
          omega

theorem countSelectors_eq_iff {selectors : List Entry} {count : Nat} :
    countSelectors labels selectors count = some (count + selectors.length) ↔
      ∀ e ∈ selectors, HasSelector labels e := by
  induction selectors generalizing count with
  | nil => simp [countSelectors]
  | cons entry selectors ih =>
      obtain ⟨selector, selectorVal⟩ := entry
      rw [countSelectors, List.forall_mem_cons, HasSelector, List.length_cons]
      cases labels.lookup selector with
      | none =>
          simp only [reduceCtorEq, false_and, iff_false]
          intro counted
          have bound := le_of_countSelectors counted
          omega
      | some labelVal =>
          dsimp only
          by_cases other : selectorVal = labelVal
          · subst other
            rw [if_neg (not_not.mpr rfl), ← @ih (count + 1), Nat.add_right_comm,
              Nat.add_assoc]
            simp
          · rw [if_pos other]
            simp [Ne.symm other]

theorem Ranges.count_eq_iff (ranges : Ranges) {selectors : AList fun _ : String => String} :
    ranges.count labels selectors = some selectors.entries.length ↔
      countSelectors labels selectors.entries 0 = some selectors.entries.length := by
  have perm := ranges.selectors_perm selectors.entries
  have ordered := @countSelectors_eq_iff labels (ranges.selectors selectors.entries) 0
  have plain := @countSelectors_eq_iff labels selectors.entries 0
  rw [Nat.zero_add] at ordered plain
  rw [Ranges.count, selectorLoop_eq fun selector => ranges.labels_perm selector labels.entries,
    plain, ← perm.length_eq, ordered]
  constructor
  · intro all e member
    exact all e (perm.mem_iff.mpr member)
  · intro all e member
    exact all e (perm.mem_iff.mp member)

end Count

section Lookup

theorem bind_congr_of_eq {α β : Type} {x y : Go α} {f g : α → Go β} (same : x = y)
    (later : ∀ a, f a = g a) : x >>= f = y >>= g := by
  rw [same]
  exact bind_congr later

variable {models : List ModelDoc} {labels : AList fun _ : String => String}

theorem findChannelBy_eq (ranges : Nat → Ranges) (model : String) (j : Nat)
    (channels : List Channel) :
    findChannelBy ranges models labels model j channels =
      findChannel models labels model channels := by
  induction channels generalizing j with
  | nil => rfl
  | cons channel channels ih =>
      rw [findChannelBy, findChannel]
      apply bind_congr
      intro selected
      cases selected.selectors with
      | none => exact ih (j + 1)
      | some selectors => simp only [ih, Ranges.count_eq_iff]

theorem findInstanceBy_eq (ranges : Nat → Nat → Ranges) (i : Nat) (instances : List StackModel) :
    findInstanceBy ranges models labels i instances = findInstance models labels instances := by
  induction instances generalizing i with
  | nil => rfl
  | cons model instances ih =>
      rw [findInstanceBy, findInstance, ih]
      apply if_congr Iff.rfl rfl
      apply bind_congr
      intro channels
      apply bind_congr_of_eq (findChannelBy_eq ..)
      intro found
      cases found with
      | none => rfl
      | some name => rfl

/-- In whatever orders the maps are gone through, the same channel is found. -/
theorem lookupSimBusChannelNameBy_eq (ranges : Nat → Nat → Ranges) (sim : Simulation) :
    lookupSimBusChannelNameBy ranges sim labels = lookupSimBusChannelName sim labels := by
  rw [lookupSimBusChannelNameBy, lookupSimBusChannelName]
  cases sim.stackDocs with
  | nil => rfl
  | cons doc docs =>
      cases docs with
      | cons next docs => cases doc <;> rfl
      | nil =>
          cases doc with
          | none => rfl
          | some instances =>
              apply bind_congr_of_eq (findInstanceBy_eq ..)
              intro found
              cases found with
              | none => rfl
              | some name => rfl

end Lookup

end DseFmi.Generate
