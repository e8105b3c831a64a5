import DseFmi.Operations.CopyExact

/-!
# Copies into the source

With the destination below an entry of the source each directory that is copied has the next
one in it, so that no bound on the recursion is enough. Unless the source is itself below the
destination, this leaves only copies that may begin.
-/

namespace DseFmi.Operations

open DseFmi.Library FileSystem

variable {N Content : Type} [LinearOrder N]
variable {fs s s' : FileSystem N Content} {src dest p : Location N} {name : N}

structure IsFresh (fs : FileSystem N Content) (p : Location N) : Prop where
  directory : fs.lookup p = some .directory
  empty : ∀ r, r ≠ [] → fs.lookup (r ++ p) = none

theorem isFresh_of_keys (directory : fs.lookup dest = some .directory)
    (alone : ∀ q ∈ fs.nodes.keys, dest <:+ q → q = dest) : IsFresh fs dest := by
  refine ⟨directory, ?_⟩
  intro r below
  by_contra found
  have listed := mem_keys (Option.isSome_iff_ne_none.mpr found)
  exact below (List.append_left_eq_self.mp (alone _ listed (List.suffix_append r dest)))

/-- The way from an entry of the source to a destination below it begins one level deeper in
the next round. -/
theorem exists_next_entry {w : Location N} {made : FileSystem N Content}
    (directory : made.lookup (name :: src) = some .directory)
    (there : (made.lookup (name :: w ++ name :: src)).isSome = true ∨
      made.blocked (name :: w ++ name :: src) = true) :
    ∃ w' next, name :: w = w' ++ [next] ∧ (made.lookup (next :: name :: src)).isSome = true := by
  obtain ⟨w', next, way⟩ : ∃ w' next, name :: w = w' ++ [next] :=
    ⟨_, _, (List.dropLast_append_getLast (List.cons_ne_nil name w)).symm⟩
  refine ⟨w', next, way, ?_⟩
  rcases there with there | closed
  · rw [way, List.append_assoc, List.singleton_append] at there
    exact isSome_suffix there
  · -- the file in the way is below the entry, which is a directory
    have inTheWay : ∃ q content, q <:+ name :: w ++ name :: src ∧
        made.lookup q = some (.file content) := by
      by_contra free
      have opened : made.blocked (name :: w ++ name :: src) = false :=
        blocked_eq_false_iff.mpr fun q content above _ file => free ⟨q, content, above, file⟩
      cases closed.symm.trans opened
    obtain ⟨q, content, above, file⟩ := inTheWay
    have entry : name :: src <:+ name :: w ++ name :: src := List.suffix_append _ _
    rcases List.suffix_or_suffix_of_suffix above entry with ⟨r, higher⟩ | ⟨r, rfl⟩
    · cases r with
      | nil =>
          rw [List.nil_append] at higher
          rw [higher, directory] at file
          cases file
      | cons leaf r =>
          have missing := lookup_below_file file (List.cons_ne_nil leaf r)
          rw [higher, directory] at missing
          cases missing
    · have short := List.suffix_append_self_iff.mp above
      rw [way] at short
      rcases List.suffix_concat_iff.mp short with rfl | ⟨r', rfl, _⟩
      · rw [List.nil_append, directory] at file
        cases file
      · rw [List.append_assoc, List.singleton_append] at file
        exact isSome_suffix (by rw [file]; rfl)

variable [Inhabited Content]

/-- Copying into a destination below an entry of the source never succeeds. -/
theorem copyDirectory_inside {fuel : Nat} {w : Location N}
    (there : (s.lookup (name :: src)).isSome = true) :
    Effect.exec (copyDirectory fuel src (w ++ name :: src)) s ≠ (.ok (), s') := by
  induction fuel generalizing name src w s s' with
  | zero => exact fun ran => nomatch congrArg Prod.fst ran
  | succ fuel ih =>
      intro ran
      rw [copyDirectory, Effect.exec_bind_ok (Effect.exec_get s)] at ran
      split at ran
      · obtain ⟨before, after, names⟩ := List.append_of_mem (mem_readDir.mpr there)
        rw [names] at ran
        obtain ⟨t, t', first, entry, _⟩ := Effect.exec_forM_ok ran
        have early := changes_entries (changes_copyDirectory fuel) src (w ++ name :: src) before s
        rw [first] at early
        have late := changes_copyEntry (changes_copyDirectory fuel) src (w ++ name :: src) name t
        rw [entry] at late
        obtain ⟨node, found⟩ := Option.isSome_iff_exists.mp (early.more.isSome there)
        rw [copyEntry, Effect.exec_bind_ok (Effect.exec_get t), found] at entry
        cases node with
        | file content =>
            -- the copy of the file would stand below the file
            have copied := copy_ok entry found
            have missing := lookup_below_file (late.more _ _ found) (List.cons_ne_nil name w)
            rw [List.cons_append] at missing
            rw [missing] at copied
            cases old : t.lookup (name :: (w ++ name :: src)) with
            | none =>
                rw [old] at copied
                cases copied
            | some node =>
                rw [old] at copied
                cases copied
        | directory =>
            obtain ⟨_, made, ensured, rest⟩ := Effect.exec_bind_eq_ok.mp entry
            have more : Extends t made := by
              have changes := changes_ensureDirectory (name :: (w ++ name :: src)) t
              rw [ensured] at changes
              exact changes.more
            have there : (made.lookup (name :: (w ++ name :: src))).isSome = true ∨
                made.blocked (name :: (w ++ name :: src)) = true := by
              obtain ⟨fs', ran, ends⟩ := exec_ensureDirectory (name :: (w ++ name :: src)) t
              cases ensured.symm.trans ran
              rcases ends with ⟨rfl, there⟩ | ⟨_, mkdir⟩
              · exact there
              · rw [(mkdirAll_eq_some mkdir).1]
                exact .inl rfl
            obtain ⟨w', next, way, entry⟩ := exists_next_entry (more _ _ found) there
            rw [← List.cons_append, way, List.append_assoc, List.singleton_append] at rest
            exact ih entry rest
      · cases congrArg Prod.fst ran

/-- Everything in the destination is as it is in the source. -/
def Mirrors (src dest : Location N) (s : FileSystem N Content) : Prop :=
  ∀ r node, s.lookup (r ++ dest) = some node → s.lookup (r ++ src) = some node

/-- The ways in which a copy into a directory ends when the destination mirrors the source. -/
def MirrorEnd (src dest : Location N) (result : Except CopyError Unit × FileSystem N Content) :
    Prop :=
  (result.1 = .ok () ∨ result.1 = .error .outOfFuel) ∧ Mirrors src dest result.2

omit [Inhabited Content] in
theorem Mirrors.step (mirrors : Mirrors src dest s) (more : Extends s s')
    (changes : ∀ r node, s'.lookup (r ++ dest) = some node →
      s.lookup (r ++ dest) = some node ∨ s.lookup (r ++ src) = some node) :
    Mirrors src dest s' := by
  intro r node found
  rcases changes r node found with old | source
  · exact more _ _ (mirrors r node old)
  · exact more _ _ source

theorem Mirrors.copy (mirrors : Mirrors src dest s) {content : Content}
    (file : s.lookup (name :: (p ++ src)) = some (.file content))
    (parent : s.lookup (p ++ dest) = some .directory) :
    MirrorEnd src dest
      (Effect.exec (Operations.copy (name :: (p ++ src)) (name :: (p ++ dest))) s) := by
  have ends := exec_copy (name :: (p ++ src)) (name :: (p ++ dest)) s
  generalize Effect.exec (Operations.copy (name :: (p ++ src)) (name :: (p ++ dest))) s = result
    at ends
  have other : s.lookup (name :: (p ++ dest)) = none →
      name :: (p ++ src) ≠ name :: (p ++ dest) := by
    intro missing same
    rw [same] at file
    cases missing.symm.trans file
  cases ends with
  | kept _ => exact ⟨.inl rfl, mirrors⟩
  | impossible _ noParent => exact absurd parent (noParent name (p ++ dest) rfl)
  | unreadable missing created unread =>
      refine absurd ?_ (unread content)
      rw [created, if_neg (other missing)]
      exact file
  | copied missing read written =>
      cases file.symm.trans (read (other missing))
      refine ⟨.inl rfl, mirrors.step (Changes.of_hasNew missing written).more ?_⟩
      intro r node found
      rw [written] at found
      split at found
      next here =>
        rw [← List.cons_append] at here
        cases List.append_cancel_right here
        exact .inr (file.trans found)
      · exact .inl found

omit [Inhabited Content] in
theorem Mirrors.ensureDirectory (mirrors : Mirrors src dest s)
    (directory : s.lookup (name :: (p ++ src)) = some .directory)
    (parent : s.lookup (p ++ dest) = some .directory) :
    ∃ s', Effect.exec (Operations.ensureDirectory (name :: (p ++ dest))) s = (.ok (), s') ∧
      Mirrors src dest s' ∧ s'.lookup (name :: (p ++ dest)) = some .directory := by
  obtain ⟨s', ran, ⟨rfl, there⟩ | ⟨missing, made⟩⟩ :=
    exec_ensureDirectory (name :: (p ++ dest)) s
  · refine ⟨s', ran, mirrors, ?_⟩
    rcases there with there | closed
    · obtain ⟨node, found⟩ := Option.isSome_iff_exists.mp there
      have source := mirrors (name :: p) node found
      cases source.symm.trans directory
      exact found
    · rw [blocked, parent] at closed
      cases closed
  · obtain ⟨bottom, more, lookups⟩ := mkdirAll_eq_some made
    refine ⟨s', ran, mirrors.step more ?_, bottom⟩
    intro r node found
    rcases lookups (r ++ dest) with same | ⟨new, above⟩
    · exact .inl (same.symm.trans found)
    · cases found.symm.trans new
      rcases List.suffix_cons_iff.mp above with here | higher
      · rw [← List.cons_append] at here
        cases List.append_cancel_right here
        exact .inr directory
      · -- a directory above one that was there was there
        obtain ⟨t, way⟩ := higher
        cases t with
        | nil =>
            rw [List.nil_append] at way
            exact .inl (way ▸ parent)
        | cons leaf t =>
            exact .inl (lookup_suffix (List.cons_ne_nil leaf t) (by rw [way, parent]; rfl))

variable (Content) in
/-- Copying the directories of the source, as far as the recursion goes. -/
def MirrorsBelow (src dest : Location N) (fuel : Nat) : Prop :=
  ∀ (p : Location N) (s : FileSystem N Content), Mirrors src dest s →
    s.lookup (p ++ src) = some .directory → s.lookup (p ++ dest) = some .directory →
    MirrorEnd src dest (Effect.exec (Operations.copyDirectory fuel (p ++ src) (p ++ dest)) s)

theorem Mirrors.copyEntry (mirrors : Mirrors src dest s) {fuel : Nat}
    (below : MirrorsBelow Content src dest fuel)
    (there : (s.lookup (name :: (p ++ src))).isSome = true)
    (parent : s.lookup (p ++ dest) = some .directory) :
    MirrorEnd src dest (Effect.exec
      (Operations.copyEntry (copyDirectory fuel) (p ++ src) (p ++ dest) name) s) := by
  obtain ⟨node, found⟩ := Option.isSome_iff_exists.mp there
  cases node with
  | file content =>
      rw [Operations.copyEntry, Effect.exec_bind_ok (Effect.exec_get s), found]
      exact mirrors.copy found parent
  | directory =>
      obtain ⟨made, first, mirrorsMade, bottom⟩ := mirrors.ensureDirectory found parent
      have more := changes_ensureDirectory (name :: (p ++ dest)) s
      rw [first] at more
      have ran : Effect.exec
          (Operations.copyEntry (copyDirectory fuel) (p ++ src) (p ++ dest) name) s =
            Effect.exec (copyDirectory fuel (name :: (p ++ src)) (name :: (p ++ dest))) made := by
        rw [Operations.copyEntry, Effect.exec_bind_ok (Effect.exec_get s), found]
        exact Effect.exec_bind_ok first
      rw [ran]
      exact below (name :: p) made mirrorsMade (more.more _ _ found) bottom

theorem Mirrors.entries (mirrors : Mirrors src dest s) {fuel : Nat}
    (below : MirrorsBelow Content src dest fuel) {names : List N}
    (there : ∀ name ∈ names, (s.lookup (name :: (p ++ src))).isSome = true)
    (parent : s.lookup (p ++ dest) = some .directory) :
    MirrorEnd src dest (Effect.exec
      (forM names (Operations.copyEntry (copyDirectory fuel) (p ++ src) (p ++ dest))) s) := by
  induction names generalizing s with
  | nil => exact ⟨.inl rfl, mirrors⟩
  | cons name names ih =>
      have entry := mirrors.copyEntry below (there name List.mem_cons_self) parent
      have changes :=
        changes_copyEntry (changes_copyDirectory fuel) (p ++ src) (p ++ dest) name s
      rw [List.forM_cons, Effect.exec_bind]
      rcases ran : Effect.exec
        (Operations.copyEntry (copyDirectory fuel) (p ++ src) (p ++ dest) name) s with ⟨result, t⟩
      rw [ran] at entry changes
      cases result with
      | ok _ =>
          exact ih entry.2
            (fun other member => changes.more.isSome
              (there other (List.mem_cons_of_mem name member)))
            (changes.more _ _ parent)
      | error e => exact ⟨.inr (entry.1.resolve_left nofun), entry.2⟩

/-- A copy into a directory that mirrors the source fails on its depth only. -/
theorem mirrorsBelow (src dest : Location N) (fuel : Nat) :
    MirrorsBelow Content src dest fuel := by
  induction fuel with
  | zero => exact fun p s mirrors _ _ => ⟨.inr rfl, mirrors⟩
  | succ fuel ih =>
      intro p s mirrors directory parent
      rw [copyDirectory, Effect.exec_bind_ok (Effect.exec_get s), if_pos directory]
      exact mirrors.entries ih (fun name member => mem_readDir.mp member) parent

/-- Into an empty directory below an entry of the source, the recursion exceeds each bound. -/
theorem copyDirectory_outOfFuel {w : Location N} (fuel : Nat)
    (fresh : IsFresh s (w ++ name :: src)) :
    (Effect.exec (copyDirectory fuel src (w ++ name :: src)) s).1 = .error .outOfFuel := by
  obtain ⟨directory, empty⟩ := fresh
  have there : (s.lookup (name :: src)).isSome = true :=
    isSome_suffix (by rw [directory]; rfl)
  have source : s.lookup src = some .directory := lookup_above there
  have mirrors : Mirrors src (w ++ name :: src) s := by
    intro r node found
    cases r with
    | nil =>
        rw [List.nil_append, directory] at found
        rw [List.nil_append, source]
        exact found
    | cons leaf r =>
        rw [empty (leaf :: r) (List.cons_ne_nil leaf r)] at found
        cases found
  obtain ⟨ends, _⟩ := mirrorsBelow src (w ++ name :: src) fuel [] s mirrors source directory
  rw [List.nil_append, List.nil_append] at ends
  refine ends.resolve_left fun succeeds => ?_
  exact copyDirectory_inside there (Prod.ext succeeds rfl)

theorem copyDirectory_directory {fuel : Nat}
    (ran : Effect.exec (copyDirectory fuel src dest) s = (.ok (), s')) :
    s.lookup src = some .directory := by
  cases fuel with
  | zero => cases congrArg Prod.fst ran
  | succ fuel =>
      rw [copyDirectory, Effect.exec_bind_ok (Effect.exec_get s)] at ran
      split at ran
      · assumption
      · cases congrArg Prod.fst ran

/-- A file that comes first is copied into a directory that is there. -/
theorem copyDirectory_first {fuel : Nat} {content : Content}
    (ran : Effect.exec (copyDirectory fuel src dest) s = (.ok (), s'))
    (first : name ∈ (s.readDir src).head?)
    (file : s.lookup (name :: src) = some (.file content)) : s.lookup dest = some .directory := by
  cases fuel with
  | zero => cases congrArg Prod.fst ran
  | succ fuel =>
      obtain ⟨names, listed⟩ := List.head?_eq_some_iff.mp first
      have directory := copyDirectory_directory ran
      rw [copyDirectory, Effect.exec_bind_ok (Effect.exec_get s), if_pos directory, listed,
        List.forM_cons] at ran
      obtain ⟨_, t, entry, _⟩ := Effect.exec_bind_eq_ok.mp ran
      rw [copyEntry, Effect.exec_bind_ok (Effect.exec_get s), file] at entry
      have ends := exec_copy (name :: src) (name :: dest) s
      rw [entry] at ends
      cases ends with
      | kept found => exact lookup_above found
      | copied _ _ written =>
          have placed := written (name :: dest)
          rw [if_pos rfl] at placed
          have parent := lookup_above (by rw [placed]; rfl)
          rw [written, if_neg (List.cons_ne_self name dest).symm] at parent
          exact parent

omit [Inhabited Content] in
/-- With the destination below no entry of the source, and the source not below the
destination, nothing is made below the entry. -/
theorem not_mayCreate (outside : ¬ name :: src <:+ dest) (above : ∀ q, q ≠ [] → src ≠ q ++ dest)
    {t : Location N} (missing : fs.lookup (t ++ name :: src) = none) :
    ¬ MayCreate fs src dest (t ++ name :: src) := by
  rintro (higher | ⟨r, place, there⟩)
  · exact outside ((List.suffix_append t _).trans higher)
  · have entry : name :: src <:+ r ++ dest := place ▸ List.suffix_append t _
    rcases List.suffix_or_suffix_of_suffix entry (List.suffix_append r dest) with below | higher
    · exact outside below
    · rcases List.suffix_cons_iff.mp higher with same | ⟨q, way⟩
      · exact outside (same ▸ List.suffix_rfl)
      · cases q with
        | nil =>
            rw [List.nil_append] at way
            rw [place, way] at missing
            rw [missing] at there
            cases there
        | cons leaf q => exact above (leaf :: q) (List.cons_ne_nil leaf q) way.symm

/-- Every copy that ends with exactly the files of the source is one that may begin, unless
the source is below the destination. -/
theorem copyable_of_copiesExactly (outside : ∀ q, q ≠ [] → src ≠ q ++ dest)
    (exact : CopiesExactly fs src dest) : Copyable fs src dest := by
  obtain ⟨fuel, fs', ran, placed, _⟩ := exact
  have changes := changes_copyDirectory fuel src dest fs
  rw [ran] at changes
  constructor
  case directory => exact copyDirectory_directory ran
  case apart =>
    intro name t entry missing mayCreate
    refine not_mayCreate ?_ outside missing mayCreate
    rintro ⟨w, rfl⟩
    exact copyDirectory_inside entry ran
  case free =>
    intro r content file
    have final := placed r content file
    refine ⟨blocked_eq_false_iff.mpr ?_, ?_⟩
    · rintro q other ⟨t, way⟩ proper there
      have nonempty : t ≠ [] := by
        rintro rfl
        exact proper way
      have nothing := lookup_below_file (changes.more _ _ there) nonempty
      rw [way, final] at nothing
      cases nothing
    · have copied := copyDirectory_ok ran file
      rw [final] at copied
      cases old : fs.lookup (r ++ dest) with
      | none => exact .inl rfl
      | some node =>
          rw [old] at copied
          exact .inr copied.symm
  case first =>
    by_cases there : fs.lookup dest = some .directory
    · exact .inl there
    · exact .inr fun name first content file => there (copyDirectory_first ran first file)

omit [Inhabited Content] in
/-- A copy into an empty directory may begin unless it is below an entry of the source. -/
theorem IsFresh.copyable (fresh : IsFresh fs dest) (directory : fs.lookup src = some .directory)
    (outside : ∀ name, ¬ name :: src <:+ dest) : Copyable fs src dest := by
  constructor
  case directory => exact directory
  case apart =>
    intro name t _ missing
    refine not_mayCreate (outside name) ?_ missing
    rintro q below rfl
    rw [fresh.empty q below] at directory
    cases directory
  case free =>
    intro r content file
    have below : r ≠ [] := by
      rintro rfl
      cases file.symm.trans directory
    refine ⟨blocked_eq_false_iff.mpr ?_, .inl (fresh.empty r below)⟩
    intro q other above _ there
    rcases List.suffix_or_suffix_of_suffix above (List.suffix_append r dest) with
      ⟨t, way⟩ | ⟨t, rfl⟩
    · cases t with
      | nil =>
          rw [List.nil_append] at way
          rw [way, fresh.directory] at there
          cases there
      | cons leaf t =>
          have nothing := lookup_below_file there (List.cons_ne_nil leaf t)
          rw [way, fresh.directory] at nothing
          cases nothing
    · cases t with
      | nil => cases there.symm.trans fresh.directory
      | cons leaf t => cases there.symm.trans (fresh.empty _ (List.cons_ne_nil leaf t))
  case first => exact .inl fresh.directory

theorem IsFresh.copiesExactly_iff (fresh : IsFresh fs dest) :
    CopiesExactly fs src dest ↔
      fs.lookup src = some .directory ∧ ∀ name, ¬ name :: src <:+ dest := by
  constructor
  · rintro ⟨fuel, fs', ran, _⟩
    refine ⟨copyDirectory_directory ran, ?_⟩
    rintro name ⟨w, rfl⟩
    have there : (fs.lookup (name :: src)).isSome = true :=
      isSome_suffix (by rw [fresh.directory]; rfl)
    exact copyDirectory_inside there ran
  · rintro ⟨directory, outside⟩
    exact copiesExactly_of_copyable (fresh.copyable directory outside)

end DseFmi.Operations
