import DseFmi.Generate.DirectIndex

/-!
# Layout of the direct index map

After the offsets are calculated, every signal that was added owns a slot of 8 bytes.
The slots are determined by the order in which groups and signals were first named, so
later additions move only the groups that follow them.
-/

namespace DseFmi.Generate

open DseFmi.Library

/-- The 8 bytes from `offset` belong to a signal of a group. -/
structure Slot where
  group : String
  signal : String
  offset : Nat
  deriving DecidableEq, Repr

def DirectIndexSignalGroup.slots (group : DirectIndexSignalGroup) : List Slot :=
  group.signals.map fun s => ⟨group.name, s.name, s.offset⟩

def DirectIndex.slots (di : DirectIndex) : List Slot :=
  di.groups.flatMap DirectIndexSignalGroup.slots

theorem mem_slots {di : DirectIndex} {group signal : String} {offset : Nat} :
    ⟨group, signal, offset⟩ ∈ di.slots ↔ ∃ sg ∈ di.groups, sg.name = group ∧
      ∃ s ∈ sg.signals, s.name = signal ∧ s.offset = offset := by
  simp only [DirectIndex.slots, DirectIndexSignalGroup.slots, List.mem_flatMap, List.mem_map,
    Slot.mk.injEq]
  constructor
  · rintro ⟨sg, hsg, s, hs, named, signal, offset⟩
    exact ⟨sg, hsg, named, s, hs, signal, offset⟩
  · rintro ⟨sg, hsg, named, s, hs, signal, offset⟩
    exact ⟨sg, hsg, s, hs, named, signal, offset⟩

theorem Represents.getSignalOffset_iff {calls : List DirectIndexCall} {di : DirectIndex}
    (h : Represents calls di) {group signal : String} {offset : Nat} :
    di.getSignalOffset group signal = (offset, true) ↔ ⟨group, signal, offset⟩ ∈ di.slots := by
  rw [mem_slots, DirectIndex.getSignalOffset]
  constructor
  · intro found
    split at found
    next => simp at found
    next sg hsg =>
      obtain ⟨member, named⟩ := h.index.bind_lookup_iff.mp hsg
      split at found
      next => simp at found
      next s hs =>
        obtain ⟨listed, signal⟩ := (h.groups sg member).index.bind_lookup_iff.mp hs
        exact ⟨sg, member, named, s, listed, signal, (Prod.mk.inj found).1⟩
  · rintro ⟨sg, member, named, s, listed, signal, rfl⟩
    have hsg := h.index.bind_lookup_iff.mpr ⟨member, named⟩
    have hs := (h.groups sg member).index.bind_lookup_iff.mpr ⟨listed, signal⟩
    rw [hsg]
    dsimp only
    rw [hs]

/-- A lookup finds an offset or reports that there is none. -/
theorem getSignalOffset_cases (di : DirectIndex) (group signal : String) :
    (∃ offset, di.getSignalOffset group signal = (offset, true)) ∨
      di.getSignalOffset group signal = (0, false) := by
  unfold DirectIndex.getSignalOffset
  split
  · exact .inr rfl
  · split
    · exact .inr rfl
    · exact .inl ⟨_, rfl⟩

theorem getSignalOffset_congr {calls more : List DirectIndexCall} {di dj : DirectIndex}
    (hi : Represents calls di) (hj : Represents more dj) {group signal : String}
    (same : ∀ offset, Slot.mk group signal offset ∈ di.slots ↔
      Slot.mk group signal offset ∈ dj.slots) :
    di.getSignalOffset group signal = dj.getSignalOffset group signal := by
  rcases getSignalOffset_cases di group signal with ⟨offset, found⟩ | missing
  · rw [found, hj.getSignalOffset_iff.mpr ((same offset).mp (hi.getSignalOffset_iff.mp found))]
  · rcases getSignalOffset_cases dj group signal with ⟨offset, found⟩ | absent
    · rw [hi.getSignalOffset_iff.mpr ((same offset).mpr (hj.getSignalOffset_iff.mp found))]
        at missing
      cases missing
    · rw [missing, absent]

/-- The number of signals in the groups before position `p`. -/
def signalsBefore (calls : List DirectIndexCall) (p : Nat) : Nat :=
  extent (fun group => (signalNames calls group).length) ((groupNames calls).take p)

theorem Represents.extent_take {calls : List DirectIndexCall} {di : DirectIndex}
    (h : Represents calls di) (p : Nat) :
    extent (fun group => group.signals.length) (di.groups.take p) = signalsBefore calls p := by
  rw [signalsBefore, ← h.names, DirectIndex.names, ← List.map_take, extent, extent, List.map_map]
  congr 1
  refine List.map_congr_left fun group hg => ?_
  have names := (h.groups group (List.take_subset _ _ hg)).names
  simpa [DirectIndexSignalGroup.names] using congrArg List.length names

theorem Represents.calculated_getElem? {calls : List DirectIndexCall} {di : DirectIndex}
    (h : Represents calls di) (p : Nat) :
    di.calculateMapOffsets.groups[p]? =
      di.groups[p]?.map fun group => group.calculate (signalsBefore calls p) := by
  rw [calculateMapOffsets_groups, List.getElem?_map, groupBlocks, place_getElem?, Option.map_map,
    h.extent_take, Nat.zero_add]
  rfl

theorem mem_calculate_signals {group : DirectIndexSignalGroup} {groupOffset : Nat}
    {s : DirectIndexSignal} : s ∈ (group.calculate groupOffset).signals ↔
      ∃ i : Nat, group.names[i]? = some s.name ∧ s.index = i ∧
        s.offset = groupOffset * 24 + i * 8 := by
  simp only [DirectIndexSignalGroup.calculate, List.mem_iff_getElem?, List.getElem?_mapIdx,
    DirectIndexSignalGroup.names, List.getElem?_map, Option.map_eq_some_iff]
  constructor
  · rintro ⟨i, original, found, rfl⟩
    exact ⟨i, ⟨original, found, rfl⟩, rfl, rfl⟩
  · rintro ⟨i, ⟨original, found, named⟩, index, offset⟩
    exact ⟨i, original, found, by cases s; simp_all⟩

/-- Slots after a calculation, in terms of the names that were given. -/
theorem Represents.mem_calculated_slots {calls : List DirectIndexCall} {di : DirectIndex}
    (h : Represents calls di) {p : Nat} {group signal : String} {offset : Nat}
    (position : (groupNames calls)[p]? = some group) :
    ⟨group, signal, offset⟩ ∈ di.calculateMapOffsets.slots ↔
      ∃ i : Nat, (signalNames calls group)[i]? = some signal ∧
        offset = signalsBefore calls p * 24 + i * 8 := by
  rw [mem_slots]
  constructor
  · rintro ⟨sg, hsg, rfl, s, hs, rfl, rfl⟩
    obtain ⟨q, hq⟩ := List.mem_iff_getElem?.mp hsg
    rw [h.calculated_getElem?] at hq
    obtain ⟨original, found, rfl⟩ := Option.map_eq_some_iff.mp hq
    have same : q = p := by
      have at_q : (groupNames calls)[q]? = some original.name := by
        rw [← h.names, DirectIndex.names, List.getElem?_map, found]
        rfl
      have named := (h.index _ _).mpr (h.names ▸ at_q)
      have asked := (h.index _ _).mpr (h.names ▸ position)
      exact Option.some.inj (named.symm.trans asked)
    subst same
    obtain ⟨i, listed, _, offset⟩ := mem_calculate_signals.mp hs
    rw [(h.groups original (List.mem_of_getElem? found)).names] at listed
    exact ⟨i, listed, offset⟩
  · rintro ⟨i, listed, rfl⟩
    rw [← h.names, DirectIndex.names, List.getElem?_map] at position
    obtain ⟨original, found, rfl⟩ := Option.map_eq_some_iff.mp position
    refine ⟨original.calculate (signalsBefore calls p), ?_, rfl,
      ⟨signal, i, signalsBefore calls p * 24 + i * 8⟩, ?_, rfl, rfl⟩
    · refine List.mem_of_getElem? (i := p) ?_
      rw [h.calculated_getElem?, found]
      rfl
    · refine mem_calculate_signals.mpr ⟨i, ?_, rfl, rfl⟩
      rw [(h.groups original (List.mem_of_getElem? found)).names]
      exact listed

/-- Every group and signal named, in the order of first naming. -/
def addedPairs (calls : List DirectIndexCall) : List (String × String) :=
  (groupNames calls).flatMap fun group => (signalNames calls group).map fun name => (group, name)

theorem mem_addedPairs {calls : List DirectIndexCall} {group name : String} :
    (group, name) ∈ addedPairs calls ↔ .addSignal group name ∈ calls := by
  simp only [addedPairs, List.mem_flatMap, List.mem_map, Prod.mk.injEq, ← mem_signalNames]
  constructor
  · rintro ⟨_, _, _, added, rfl, rfl⟩
    exact added
  · intro added
    exact ⟨group, mem_groupNames.mpr ⟨_, mem_signalNames.mp added, rfl⟩, name, added, rfl, rfl⟩

/-- The slots are disjoint, the blocks of the groups tile the map, and lookups find the slots.
The map has 24 bytes for each of the distinct signals. -/
structure MapLayout (calls : List DirectIndexCall) (di : DirectIndex) : Prop where
  listed : di.slots.map (fun slot => (slot.group, slot.signal)) = addedPairs calls
  once : (addedPairs calls).Nodup
  disjoint : di.slots.Pairwise fun a b => a.offset + 8 ≤ b.offset
  inside : ∀ group ∈ di.groups, ∀ s ∈ group.signals,
    24 * group.offset ≤ s.offset ∧ s.offset + 8 ≤ 24 * group.offset + 8 * group.length
  length : ∀ group ∈ di.groups, group.length = group.signals.length
  consecutive : ∀ p group, di.groups[p]? = some group →
    group.offset = ((di.groups.take p).map DirectIndexSignalGroup.length).sum
  blocks_disjoint : di.groups.Pairwise fun g h => 24 * (g.offset + g.length) ≤ 24 * h.offset
  bounded : ∀ group ∈ di.groups, 24 * (group.offset + group.length) ≤ 24 * (addedPairs calls).length
  tiled : ∀ n < 24 * (addedPairs calls).length, ∃ group ∈ di.groups,
    24 * group.offset ≤ n ∧ n < 24 * (group.offset + group.length)
  found : ∀ group signal offset,
    di.getSignalOffset group signal = (offset, true) ↔ ⟨group, signal, offset⟩ ∈ di.slots
  missing : ∀ group signal,
    di.getSignalOffset group signal = (0, false) ↔ .addSignal group signal ∉ calls

theorem Represents.slots_pairs {calls : List DirectIndexCall} {di : DirectIndex}
    (h : Represents calls di) :
    di.slots.map (fun slot => (slot.group, slot.signal)) = addedPairs calls := by
  rw [addedPairs, ← h.names, DirectIndex.names, List.flatMap_map, DirectIndex.slots,
    List.map_flatMap]
  refine List.flatMap_congr fun group hg => ?_
  rw [← (h.groups group hg).names]
  simp [DirectIndexSignalGroup.slots, DirectIndexSignalGroup.names, Function.comp_def]

theorem addedPairs_nodup {calls : List DirectIndexCall} {di : DirectIndex}
    (h : Represents calls di) : (addedPairs calls).Nodup := by
  refine List.nodup_flatMap.mpr ⟨?_, ?_⟩
  · intro group hg
    rw [← h.names] at hg
    obtain ⟨sg, hsg, rfl⟩ := List.mem_map.mp hg
    have names := (h.groups sg hsg).index.nodup
    rw [(h.groups sg hsg).names] at names
    exact names.map fun a b same => (Prod.mk.inj same).2
  · refine (h.names ▸ h.index.nodup).imp ?_
    intro a b different x hx hy
    obtain ⟨_, _, rfl⟩ := List.mem_map.mp hx
    obtain ⟨_, _, same⟩ := List.mem_map.mp hy
    exact different (Prod.mk.inj same).1.symm

theorem Represents.length_addedPairs {calls : List DirectIndexCall} {di : DirectIndex}
    (h : Represents calls di) :
    (addedPairs calls).length = extent (fun group => group.signals.length) di.groups := by
  rw [← h.slots_pairs, List.length_map, DirectIndex.slots, List.length_flatMap, extent]
  simp [DirectIndexSignalGroup.slots]

theorem calculate_signals_inside {group : DirectIndexSignalGroup} {groupOffset : Nat}
    {s : DirectIndexSignal} (hs : s ∈ (group.calculate groupOffset).signals) :
    24 * groupOffset ≤ s.offset ∧
      s.offset + 8 ≤ 24 * groupOffset + 8 * group.signals.length := by
  obtain ⟨i, listed, _, offset⟩ := mem_calculate_signals.mp hs
  obtain ⟨hi, _⟩ := List.getElem?_eq_some_iff.mp listed
  rw [DirectIndexSignalGroup.names, List.length_map] at hi
  omega

theorem calculate_signals_pairwise (group : DirectIndexSignalGroup) (groupOffset : Nat) :
    (group.calculate groupOffset).signals.Pairwise fun a b => a.offset + 8 ≤ b.offset := by
  refine List.pairwise_iff_getElem.mpr ?_
  intro i j hi hj less
  simp only [DirectIndexSignalGroup.calculate, List.getElem_mapIdx]
  omega

theorem groupBlocks_pairwise (groups : List DirectIndexSignalGroup) :
    (groupBlocks groups).Pairwise fun b c => 24 * (b.1 + b.2.signals.length) ≤ 24 * c.1 :=
  (place_pairwise (fun group => group.signals.length) 0 groups).imp
    fun {_ _} follows => Nat.mul_le_mul_left 24 follows

theorem calculated_slots_pairwise (di : DirectIndex) :
    di.calculateMapOffsets.slots.Pairwise fun a b => a.offset + 8 ≤ b.offset := by
  rw [DirectIndex.slots, calculateMapOffsets_groups, List.flatMap_map]
  refine List.pairwise_flatMap.mpr ⟨?_, ?_⟩
  · intro b _
    exact List.pairwise_map.mpr (calculate_signals_pairwise b.2 b.1)
  · refine (groupBlocks_pairwise di.groups).imp ?_
    intro b c follows x hx y hy
    obtain ⟨s, hs, rfl⟩ := List.mem_map.mp hx
    obtain ⟨t, ht, rfl⟩ := List.mem_map.mp hy
    have before := (calculate_signals_inside hs).2
    have after := (calculate_signals_inside ht).1
    dsimp only
    omega

theorem Represents.missing_iff {calls : List DirectIndexCall} {di : DirectIndex}
    (h : Represents calls di) {group signal : String} :
    di.getSignalOffset group signal = (0, false) ↔ .addSignal group signal ∉ calls := by
  rw [← mem_addedPairs, ← h.slots_pairs]
  constructor
  · rintro missing listed
    obtain ⟨⟨_, _, offset⟩, hslot, same⟩ := List.mem_map.mp listed
    obtain ⟨rfl, rfl⟩ := Prod.mk.inj same
    rw [h.getSignalOffset_iff.mpr hslot] at missing
    cases missing
  · intro unlisted
    refine (getSignalOffset_cases di group signal).resolve_left ?_
    rintro ⟨offset, found⟩
    exact unlisted (List.mem_map_of_mem (f := fun slot : Slot => (slot.group, slot.signal))
      (h.getSignalOffset_iff.mp found))

theorem addedPairs_calculateMapOffsets (calls : List DirectIndexCall) :
    addedPairs (calls ++ [.calculateMapOffsets]) = addedPairs calls := by
  have groups : groupNames (calls ++ [.calculateMapOffsets]) = groupNames calls :=
    groupNames_concat calls _
  have signals : ∀ group, signalNames (calls ++ [.calculateMapOffsets]) group =
      signalNames calls group := fun group => signalNames_concat calls _ group
  simp only [addedPairs, groups, signals]

theorem Represents.mapLayout {calls : List DirectIndexCall} {di : DirectIndex}
    (h : Represents calls di) :
    MapLayout (calls ++ [.calculateMapOffsets]) di.calculateMapOffsets where
  listed := h.calculateMapOffsets.slots_pairs
  once := addedPairs_nodup h.calculateMapOffsets
  disjoint := calculated_slots_pairwise di
  inside := by
    intro group hg s hs
    rw [calculateMapOffsets_groups] at hg
    obtain ⟨b, hb, rfl⟩ := List.mem_map.mp hg
    exact calculate_signals_inside hs
  length := by
    intro group hg
    rw [calculateMapOffsets_groups] at hg
    obtain ⟨b, hb, rfl⟩ := List.mem_map.mp hg
    simp [DirectIndexSignalGroup.calculate]
  consecutive := by
    intro p group hg
    have lengths : (di.calculateMapOffsets.groups.take p).map DirectIndexSignalGroup.length =
        (di.groups.take p).map fun group => group.signals.length := by
      rw [calculateMapOffsets_groups, List.map_take, List.map_map,
        ← place_map_snd (fun group => group.signals.length) 0 di.groups, List.map_take,
        List.map_map, place_map_snd]
      rfl
    rw [h.calculated_getElem?] at hg
    obtain ⟨original, _, rfl⟩ := Option.map_eq_some_iff.mp hg
    rw [lengths, DirectIndexSignalGroup.calculate, ← h.extent_take]
    rfl
  blocks_disjoint := by
    rw [calculateMapOffsets_groups]
    exact List.pairwise_map.mpr (groupBlocks_pairwise di.groups)
  bounded := by
    intro group hg
    rw [calculateMapOffsets_groups] at hg
    obtain ⟨b, hb, rfl⟩ := List.mem_map.mp hg
    have ends := place_end_le hb
    rw [addedPairs_calculateMapOffsets, h.length_addedPairs]
    simp only [DirectIndexSignalGroup.calculate]
    omega
  tiled := by
    intro n hn
    rw [addedPairs_calculateMapOffsets, h.length_addedPairs] at hn
    obtain ⟨b, hb, lower, upper⟩ := exists_place_of_lt
      (fun group : DirectIndexSignalGroup => group.signals.length) di.groups (n := n / 24)
      (Nat.zero_le _) (by omega)
    refine ⟨b.2.calculate b.1, ?_, ?_⟩
    · rw [calculateMapOffsets_groups]
      exact List.mem_map_of_mem hb
    · simp only [DirectIndexSignalGroup.calculate]
      omega
  found := fun _ _ _ => h.calculateMapOffsets.getSignalOffset_iff
  missing := fun _ _ => h.calculateMapOffsets.missing_iff

/-- The calls add a signal to the group that it did not have. -/
def Receives (calls more : List DirectIndexCall) (group : String) : Prop :=
  ∃ signal, .addSignal group signal ∈ more ∧ .addSignal group signal ∉ calls

theorem signalNames_of_not_receives {calls more : List DirectIndexCall} {group : String}
    (none_new : ¬ Receives calls more group) :
    signalNames (calls ++ more) group = signalNames calls group := by
  rw [signalNames, List.filterMap_append]
  refine eraseDups_append_of_subset fun name added => ?_
  have later : .addSignal group name ∈ more :=
    mem_signalNames.mp (List.mem_eraseDups.mpr added)
  by_contra absent
  refine none_new ⟨name, later, fun earlier => absent ?_⟩
  exact List.mem_eraseDups.mp (mem_signalNames.mpr earlier)

theorem groupNames_prefix (calls more : List DirectIndexCall) :
    groupNames calls <+: groupNames (calls ++ more) := by
  rw [groupNames, groupNames, List.filterMap_append]
  exact eraseDups_prefix _ _

/-- Groups up to position `p` are where they were when only later groups receive signals. -/
theorem signalsBefore_stable {calls more : List DirectIndexCall} {p : Nat}
    (inside : p < (groupNames calls).length)
    (later : ∀ q group, (groupNames (calls ++ more))[q]? = some group →
      Receives calls more group → p < q) :
    signalsBefore (calls ++ more) p = signalsBefore calls p := by
  obtain ⟨rest, extended⟩ := groupNames_prefix calls more
  have same : (groupNames (calls ++ more)).take p = (groupNames calls).take p := by
    rw [← extended, List.take_append_of_le_length (Nat.le_of_lt inside)]
  rw [signalsBefore, signalsBefore, same, extent, extent]
  congr 1
  refine List.map_congr_left fun group hg => ?_
  rw [← same] at hg
  obtain ⟨q, hq⟩ := List.mem_iff_getElem?.mp hg
  rw [signalNames_of_not_receives]
  intro receives
  have less : q < p := by
    by_contra beyond
    rw [List.getElem?_take_eq_none (by omega)] at hq
    cases hq
  rw [List.getElem?_take_of_lt less] at hq
  exact Nat.lt_asymm less (later q group hq receives)

theorem runCalls_calculate (calls : List DirectIndexCall) :
    runCalls (calls ++ [.calculateMapOffsets]) = (runCalls calls).calculateMapOffsets := by
  rw [runCalls, List.foldl_concat]
  rfl

/-- The slots of a group stay when only groups after it receive signals. -/
theorem getSignalOffset_stable {calls more : List DirectIndexCall} {p : Nat} {group : String}
    (position : (groupNames calls)[p]? = some group)
    (later : ∀ q other, (groupNames (calls ++ more))[q]? = some other →
      Receives calls more other → p < q) (signal : String) :
    (runCalls (calls ++ more)).calculateMapOffsets.getSignalOffset group signal =
      (runCalls calls).calculateMapOffsets.getSignalOffset group signal := by
  have before := runCalls_represents calls
  have after := runCalls_represents (calls ++ more)
  have inside : p < (groupNames calls).length := (List.getElem?_eq_some_iff.mp position).1
  have kept : (groupNames (calls ++ more))[p]? = some group := by
    obtain ⟨rest, extended⟩ := groupNames_prefix calls more
    rw [← extended, List.getElem?_append_left inside, position]
  have names : signalNames (calls ++ more) group = signalNames calls group :=
    signalNames_of_not_receives fun receives => Nat.lt_irrefl p (later p group kept receives)
  refine getSignalOffset_congr after.calculateMapOffsets before.calculateMapOffsets ?_
  intro offset
  rw [after.mem_calculated_slots kept, before.mem_calculated_slots position, names,
    signalsBefore_stable inside later]

/-- The map is laid out, and later additions change no slot of an earlier group. -/
theorem directIndex_layout (calls : List DirectIndexCall) :
    MapLayout (calls ++ [.calculateMapOffsets]) (runCalls (calls ++ [.calculateMapOffsets])) ∧
      ∀ (more : List DirectIndexCall) (p : Nat) (group : String),
        (groupNames calls)[p]? = some group →
        (∀ q other, (groupNames (calls ++ .calculateMapOffsets :: more))[q]? = some other →
          Receives calls more other → p < q) →
        ∀ signal, (runCalls (calls ++ .calculateMapOffsets :: more ++
            [.calculateMapOffsets])).getSignalOffset group signal =
          (runCalls (calls ++ [.calculateMapOffsets])).getSignalOffset group signal := by
  refine ⟨?_, ?_⟩
  · rw [runCalls_calculate]
    exact (runCalls_represents calls).mapLayout
  · intro more p group position later signal
    rw [runCalls_calculate, runCalls_calculate]
    refine getSignalOffset_stable position ?_ signal
    rintro q other named ⟨added, hadded, isNew⟩
    refine later q other named ⟨added, ?_, isNew⟩
    exact (List.mem_cons.mp hadded).resolve_left (by simp)

/-- Adding to `bar` leaves `foo`, which was named before it, where it is. -/
theorem directIndex_layout_foo :
    (runCalls [.addSignal "foo" "one", .addSignal "bar" "two", .calculateMapOffsets,
        .addSignal "bar" "three", .calculateMapOffsets]).getSignalOffset "foo" "one" =
      (runCalls [.addSignal "foo" "one", .addSignal "bar" "two",
        .calculateMapOffsets]).getSignalOffset "foo" "one" := by
  refine (directIndex_layout [.addSignal "foo" "one", .addSignal "bar" "two"]).2
    [.addSignal "bar" "three"] 0 "foo" (by decide) ?_ "one"
  rintro q other named ⟨signal, added, _⟩
  obtain ⟨rfl, rfl⟩ := DirectIndexCall.addSignal.inj (List.mem_singleton.mp added)
  refine Nat.pos_of_ne_zero ?_
  rintro rfl
  exact absurd named (by decide)

end DseFmi.Generate
