import Mathlib.Data.List.Induction
import DseFmi.Library.Index
import DseFmi.Library.Layout

/-!
# Direct index

Signal groups and their signals are listed in the order they are first named. The map
offsets are running sums: a group reserves 24 bytes for each of its signals, and the
scalars of a group take 8 bytes each at the start of its block. A pointer to a group or
a signal is its position in the list that owns it.
-/

namespace DseFmi.Generate

open DseFmi.Library

structure DirectIndexSignal where
  name : String
  index : Nat
  offset : Nat
  deriving DecidableEq, Repr

structure DirectIndexSignalGroup where
  name : String
  signals : List DirectIndexSignal
  index : Positions String
  offset : Nat
  length : Nat

structure DirectIndex where
  groups : List DirectIndexSignalGroup
  index : Positions String

def newDirectIndex : DirectIndex := ⟨[], ∅⟩

def DirectIndex.getSignalGroup (di : DirectIndex) (name : String) : Nat × DirectIndex :=
  match di.index.lookup name with
  | some group => (group, di)
  | none =>
      let group : DirectIndexSignalGroup :=
        { name, signals := [], index := ∅, offset := 0, length := 0 }
      (di.groups.length,
        { groups := di.groups ++ [group], index := di.index.insert name di.groups.length })

def DirectIndexSignalGroup.addSignal (group : DirectIndexSignalGroup) (name : String) :
    DirectIndexSignalGroup :=
  match group.index.lookup name with
  | some _ => group
  | none =>
      { group with
        signals := group.signals ++ [{ name, index := 0, offset := 0 }]
        index := group.index.insert name group.signals.length }

def DirectIndex.addSignal (di : DirectIndex) (group name : String) : DirectIndex :=
  let (signalGroup, di) := di.getSignalGroup group
  { di with groups := di.groups.modify signalGroup fun group => group.addSignal name }

def DirectIndexSignalGroup.calculate (groupOffset : Nat) (group : DirectIndexSignalGroup) :
    DirectIndexSignalGroup :=
  let mapOffset := groupOffset * 24
  { group with
    offset := groupOffset
    length := group.signals.length
    signals := group.signals.mapIdx fun i s => { s with index := i, offset := mapOffset + i * 8 } }

def calculateGroups : Nat → List DirectIndexSignalGroup → List DirectIndexSignalGroup
  | _, [] => []
  | groupOffset, group :: groups =>
      group.calculate groupOffset :: calculateGroups (groupOffset + group.signals.length) groups

def DirectIndex.calculateMapOffsets (di : DirectIndex) : DirectIndex :=
  { di with groups := calculateGroups 0 di.groups }

def DirectIndex.getSignalOffset (di : DirectIndex) (group signal : String) : Nat × Bool :=
  match (di.index.lookup group).bind fun i => di.groups[i]? with
  | none => (0, false)
  | some sg =>
      match (sg.index.lookup signal).bind fun i => sg.signals[i]? with
      | none => (0, false)
      | some s => (s.offset, true)

inductive DirectIndexCall where
  | getSignalGroup (name : String)
  | addSignal (group name : String)
  | calculateMapOffsets
  deriving DecidableEq, Repr

def DirectIndexCall.run (di : DirectIndex) : DirectIndexCall → DirectIndex
  | .getSignalGroup name => (di.getSignalGroup name).2
  | .addSignal group name => di.addSignal group name
  | .calculateMapOffsets => di.calculateMapOffsets

def runCalls (calls : List DirectIndexCall) : DirectIndex :=
  calls.foldl DirectIndexCall.run newDirectIndex

def DirectIndexCall.group? : DirectIndexCall → Option String
  | .getSignalGroup name => some name
  | .addSignal group _ => some group
  | .calculateMapOffsets => none

def DirectIndexCall.signal? (group : String) : DirectIndexCall → Option String
  | .addSignal g name => if g = group then some name else none
  | _ => none

def groupNames (calls : List DirectIndexCall) : List String :=
  (calls.filterMap DirectIndexCall.group?).eraseDups

/-- The signals added to a group, in the order of their first addition. -/
def signalNames (calls : List DirectIndexCall) (group : String) : List String :=
  (calls.filterMap (DirectIndexCall.signal? group)).eraseDups

theorem mem_groupNames {calls : List DirectIndexCall} {name : String} :
    name ∈ groupNames calls ↔ ∃ call ∈ calls, call.group? = some name := by
  rw [groupNames, List.mem_eraseDups, List.mem_filterMap]

theorem mem_signalNames {calls : List DirectIndexCall} {group name : String} :
    name ∈ signalNames calls group ↔ .addSignal group name ∈ calls := by
  rw [signalNames, List.mem_eraseDups, List.mem_filterMap]
  constructor
  · rintro ⟨call, hcall, added⟩
    cases call with
    | addSignal g n =>
        simp only [DirectIndexCall.signal?, Option.ite_none_right_eq_some,
          Option.some.injEq] at added
        obtain ⟨rfl, rfl⟩ := added
        exact hcall
    | getSignalGroup n => cases added
    | calculateMapOffsets => cases added
  · intro hcall
    exact ⟨_, hcall, by simp [DirectIndexCall.signal?]⟩

theorem signalNames_eq_nil {calls : List DirectIndexCall} {group : String}
    (unnamed : group ∉ groupNames calls) : signalNames calls group = [] := by
  refine List.eq_nil_iff_forall_not_mem.mpr fun name added => unnamed ?_
  exact mem_groupNames.mpr ⟨_, mem_signalNames.mp added, rfl⟩

theorem groupNames_concat (calls : List DirectIndexCall) (call : DirectIndexCall) :
    groupNames (calls ++ [call]) =
      match call.group? with
      | none => groupNames calls
      | some name =>
          if name ∈ groupNames calls then groupNames calls else groupNames calls ++ [name] := by
  cases named : call.group? with
  | none => simp [groupNames, named]
  | some name => simp [groupNames, named, eraseDups_concat]

theorem signalNames_concat (calls : List DirectIndexCall) (call : DirectIndexCall)
    (group : String) :
    signalNames (calls ++ [call]) group =
      match call.signal? group with
      | none => signalNames calls group
      | some name =>
          if name ∈ signalNames calls group then signalNames calls group
          else signalNames calls group ++ [name] := by
  cases added : call.signal? group with
  | none => simp [signalNames, added]
  | some name => simp [signalNames, added, eraseDups_concat]

def DirectIndex.names (di : DirectIndex) : List String :=
  di.groups.map DirectIndexSignalGroup.name

def DirectIndexSignalGroup.names (group : DirectIndexSignalGroup) : List String :=
  group.signals.map DirectIndexSignal.name

structure RepresentsGroup (calls : List DirectIndexCall) (group : DirectIndexSignalGroup) :
    Prop where
  names : group.names = signalNames calls group.name
  index : Indexes group.index group.names

structure Represents (calls : List DirectIndexCall) (di : DirectIndex) : Prop where
  names : di.names = groupNames calls
  index : Indexes di.index di.names
  groups : ∀ group ∈ di.groups, RepresentsGroup calls group

theorem RepresentsGroup.of_signalNames {calls more : List DirectIndexCall}
    {group : DirectIndexSignalGroup} (h : RepresentsGroup calls group)
    (same : signalNames more group.name = signalNames calls group.name) :
    RepresentsGroup more group :=
  ⟨h.names.trans same.symm, h.index⟩

@[simp] theorem addSignal_name (group : DirectIndexSignalGroup) (name : String) :
    (group.addSignal name).name = group.name := by
  unfold DirectIndexSignalGroup.addSignal
  split <;> rfl

theorem RepresentsGroup.addSignal {calls : List DirectIndexCall} {group : DirectIndexSignalGroup}
    (h : RepresentsGroup calls group) (name : String) :
    RepresentsGroup (calls ++ [.addSignal group.name name]) (group.addSignal name) := by
  have names := signalNames_concat calls (.addSignal group.name name) group.name
  simp only [DirectIndexCall.signal?, if_true, ← h.names] at names
  cases found : group.index.lookup name with
  | some i =>
      have known : name ∈ group.names := (h.index.mem_iff name).mp ⟨i, found⟩
      rw [if_pos known] at names
      simp only [DirectIndexSignalGroup.addSignal, found]
      exact ⟨names.symm, h.index⟩
  | none =>
      have fresh : name ∉ group.names := h.index.lookup_eq_none.mp found
      rw [if_neg fresh] at names
      have appended := h.index.append fresh
      simp only [DirectIndexSignalGroup.addSignal, found]
      refine ⟨?_, ?_⟩
      · simpa [DirectIndexSignalGroup.names] using names.symm
      · simpa [DirectIndexSignalGroup.names] using appended

/-- The position returned is that of a group with the name asked for. -/
theorem Represents.getSignalGroup {calls : List DirectIndexCall} {di : DirectIndex}
    (h : Represents calls di) (name : String) :
    Represents (calls ++ [.getSignalGroup name]) (di.getSignalGroup name).2 ∧
      (di.getSignalGroup name).2.names[(di.getSignalGroup name).1]? = some name := by
  have names := groupNames_concat calls (.getSignalGroup name)
  have signals : ∀ group, signalNames (calls ++ [.getSignalGroup name]) group =
      signalNames calls group := fun group => signalNames_concat calls _ group
  simp only [DirectIndexCall.group?, ← h.names] at names
  cases found : di.index.lookup name with
  | some i =>
      have known : name ∈ di.names := (h.index.mem_iff name).mp ⟨i, found⟩
      rw [if_pos known] at names
      simp only [DirectIndex.getSignalGroup, found]
      exact ⟨⟨names.symm, h.index, fun group hg => (h.groups group hg).of_signalNames
        (signals _)⟩, (h.index name i).mp found⟩
  | none =>
      have fresh : name ∉ di.names := h.index.lookup_eq_none.mp found
      rw [if_neg fresh] at names
      have appended := h.index.append fresh
      simp only [DirectIndex.getSignalGroup, found]
      refine ⟨⟨?_, ?_, ?_⟩, ?_⟩
      · simpa [DirectIndex.names] using names.symm
      · simpa [DirectIndex.names] using appended
      · intro group hg
        rcases List.mem_append.mp hg with hg | hg
        · exact (h.groups group hg).of_signalNames (signals _)
        · rw [List.mem_singleton.mp hg]
          refine ⟨?_, Indexes.empty⟩
          rw [signals, signalNames_eq_nil (h.names ▸ fresh)]
          rfl
      · simp [DirectIndex.names]

theorem Represents.addSignal {calls : List DirectIndexCall} {di : DirectIndex}
    (h : Represents calls di) (group name : String) :
    Represents (calls ++ [.addSignal group name]) (di.addSignal group name) := by
  obtain ⟨named, position⟩ := h.getSignalGroup group
  have groups : groupNames (calls ++ [.addSignal group name]) =
      groupNames (calls ++ [.getSignalGroup group]) := by
    rw [groupNames_concat, groupNames_concat]
    rfl
  have others : ∀ other, group ≠ other → signalNames (calls ++ [.addSignal group name]) other =
      signalNames calls other := by
    intro other different
    rw [signalNames_concat]
    simp [DirectIndexCall.signal?, different]
  simp only [DirectIndex.addSignal]
  generalize di.getSignalGroup group = found at named position ⊢
  obtain ⟨i, di⟩ := found
  have names : (di.groups.modify i fun group => group.addSignal name).map
      DirectIndexSignalGroup.name = di.names := by
    refine List.ext_getElem? fun j => ?_
    rw [List.getElem?_map, List.getElem?_modify, DirectIndex.names, List.getElem?_map]
    by_cases same : i = j <;> cases di.groups[j]? <;> simp [same]
  refine ⟨?_, ?_, ?_⟩
  · exact (names.trans named.names).trans groups.symm
  · rw [DirectIndex.names, names]
    exact named.index
  · intro modified hmodified
    obtain ⟨j, hj⟩ := List.mem_iff_getElem?.mp hmodified
    rw [List.getElem?_modify] at hj
    obtain ⟨original, horiginal, rfl⟩ := Option.map_eq_some_iff.mp hj
    have old := named.groups original (List.mem_of_getElem? horiginal)
    have ofCalls : RepresentsGroup calls original := old.of_signalNames
      (signalNames_concat calls (.getSignalGroup group) _).symm
    have at_j : di.names[j]? = some original.name := by
      rw [DirectIndex.names, List.getElem?_map, horiginal]
      rfl
    by_cases same : i = j
    · subst same
      obtain rfl : original.name = group := Option.some.inj (at_j.symm.trans position)
      simp only [if_true]
      exact ofCalls.addSignal name
    · simp only [if_neg same]
      refine ofCalls.of_signalNames (others _ ?_)
      rintro rfl
      have i_found := (named.index _ _).mpr position
      have j_found := (named.index _ _).mpr at_j
      exact same (Option.some.inj (i_found.symm.trans j_found))

/-- The groups with the sizes of their blocks, counted in signals. -/
def groupBlocks (groups : List DirectIndexSignalGroup) : List (Nat × DirectIndexSignalGroup) :=
  place (fun group => group.signals.length) 0 groups

theorem calculateGroups_eq (groupOffset : Nat) (groups : List DirectIndexSignalGroup) :
    calculateGroups groupOffset groups =
      (place (fun group => group.signals.length) groupOffset groups).map
        fun b => b.2.calculate b.1 := by
  induction groups generalizing groupOffset with
  | nil => rfl
  | cons group groups ih => simp [calculateGroups, place, ih]

theorem calculateMapOffsets_groups (di : DirectIndex) :
    di.calculateMapOffsets.groups = (groupBlocks di.groups).map fun b => b.2.calculate b.1 :=
  calculateGroups_eq 0 di.groups

@[simp] theorem calculate_names (group : DirectIndexSignalGroup) (groupOffset : Nat) :
    (group.calculate groupOffset).names = group.names := by
  refine List.ext_getElem? fun i => ?_
  simp [DirectIndexSignalGroup.calculate, DirectIndexSignalGroup.names, Function.comp_def]

@[simp] theorem calculateMapOffsets_names (di : DirectIndex) :
    di.calculateMapOffsets.names = di.names := by
  have named : ∀ (groups : List DirectIndexSignalGroup) (groupOffset : Nat),
      (calculateGroups groupOffset groups).map DirectIndexSignalGroup.name =
        groups.map DirectIndexSignalGroup.name := by
    intro groups
    induction groups with
    | nil => exact fun _ => rfl
    | cons group groups ih =>
        intro groupOffset
        rw [calculateGroups, List.map_cons, ih, List.map_cons]
        rfl
  exact named di.groups 0

theorem RepresentsGroup.calculate {calls : List DirectIndexCall} {group : DirectIndexSignalGroup}
    (h : RepresentsGroup calls group) (groupOffset : Nat) :
    RepresentsGroup calls (group.calculate groupOffset) :=
  ⟨(calculate_names group groupOffset).trans h.names,
    (calculate_names group groupOffset).symm ▸ h.index⟩

theorem Represents.calculateMapOffsets {calls : List DirectIndexCall} {di : DirectIndex}
    (h : Represents calls di) :
    Represents (calls ++ [.calculateMapOffsets]) di.calculateMapOffsets := by
  refine ⟨?_, ?_, ?_⟩
  · rw [calculateMapOffsets_names, h.names, groupNames_concat]
    rfl
  · rw [calculateMapOffsets_names]
    exact h.index
  · intro group hg
    rw [calculateMapOffsets_groups] at hg
    obtain ⟨b, hb, rfl⟩ := List.mem_map.mp hg
    have member : b.2 ∈ di.groups := by
      rw [← place_map_snd (fun group => group.signals.length) 0 di.groups]
      exact List.mem_map_of_mem hb
    refine ((h.groups b.2 member).calculate b.1).of_signalNames ?_
    exact signalNames_concat calls .calculateMapOffsets _

theorem Represents.step {calls : List DirectIndexCall} {di : DirectIndex}
    (h : Represents calls di) (call : DirectIndexCall) :
    Represents (calls ++ [call]) (call.run di) := by
  cases call with
  | getSignalGroup name => exact (h.getSignalGroup name).1
  | addSignal group name => exact h.addSignal group name
  | calculateMapOffsets => exact h.calculateMapOffsets

theorem runCalls_represents (calls : List DirectIndexCall) :
    Represents calls (runCalls calls) := by
  induction calls using List.reverseRecOn with
  | nil => exact ⟨rfl, Indexes.empty, by simp [runCalls, newDirectIndex]⟩
  | append_singleton calls call ih =>
      rw [runCalls, List.foldl_concat]
      exact ih.step call

end DseFmi.Generate
