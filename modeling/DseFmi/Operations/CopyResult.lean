import Mathlib.Data.List.Induction
import DseFmi.Operations.CopyDirectory

/-!
# What copying leaves

Copying leaves everything as it was that was there before. After a copy that succeeded, each
file of the source has a node at its place in the destination: the old one, or else a file
with the content of the source.
-/

namespace DseFmi.Operations

open DseFmi.Library FileSystem

variable {N Content : Type} [LinearOrder N]

theorem exec_change_some {f : FileSystem N Content → Option (FileSystem N Content)}
    {fs fs' : FileSystem N Content} (possible : f fs = some fs') :
    Effect.exec (change f) fs = (.ok (), fs') := by
  rw [change, Effect.exec_of, possible]

theorem exec_change_none {f : FileSystem N Content → Option (FileSystem N Content)}
    {fs : FileSystem N Content} (impossible : f fs = none) :
    Effect.exec (change f) fs = (.error .failed, fs) := by
  rw [change, Effect.exec_of, impossible]

theorem exec_change_ok {f : FileSystem N Content → Option (FileSystem N Content)}
    {fs fs' : FileSystem N Content} (ran : Effect.exec (change f) fs = (.ok (), fs')) :
    f fs = some fs' := by
  cases possible : f fs with
  | none =>
      rw [exec_change_none possible] at ran
      cases congrArg Prod.fst ran
  | some made =>
      rw [exec_change_some possible] at ran
      exact congrArg (fun result => some result.2) ran

theorem exec_readFile_ok {p : Location N} {content : Content} {fs : FileSystem N Content}
    (found : fs.lookup p = some (.file content)) :
    Effect.exec (readFile p) fs = (.ok content, fs) := by
  rw [readFile, Effect.exec_of, found]

theorem exec_readFile_error {p : Location N} {fs : FileSystem N Content}
    (unread : ∀ content, fs.lookup p ≠ some (.file content)) :
    Effect.exec (readFile p) fs = (.error .failed, fs) := by
  rw [readFile, Effect.exec_of]
  split
  next content found =>
    exact absurd found (unread content)
  · rfl

/-- The file system with a file at a location. -/
def HasNew (fs fs' : FileSystem N Content) (p : Location N) (content : Content) : Prop :=
  ∀ q, fs'.lookup q = if q = p then some (.file content) else fs.lookup q

inductive Copied [Inhabited Content] (src dest : Location N) (fs : FileSystem N Content) :
    Except CopyError Unit × FileSystem N Content → Prop
  | kept (found : (fs.lookup dest).isSome = true) : Copied src dest fs (.ok (), fs)
  | impossible (missing : fs.lookup dest = none)
      (parent : ∀ name p, dest = name :: p → fs.lookup p ≠ some .directory) :
      Copied src dest fs (.error .failed, fs)
  | unreadable {fs' : FileSystem N Content} (missing : fs.lookup dest = none)
      (created : HasNew fs fs' dest default)
      (unread : ∀ content, fs'.lookup src ≠ some (.file content)) :
      Copied src dest fs (.error .failed, fs')
  | copied {fs' : FileSystem N Content} {content : Content} (missing : fs.lookup dest = none)
      (source : src ≠ dest → fs.lookup src = some (.file content))
      (written : HasNew fs fs' dest content) : Copied src dest fs (.ok (), fs')

theorem exec_copy [Inhabited Content] (src dest : Location N) (fs : FileSystem N Content) :
    Copied src dest fs (Effect.exec (copy src dest) fs) := by
  rw [copy, Effect.exec_bind_ok (Effect.exec_get fs)]
  by_cases found : (fs.lookup dest).isSome = true
  · rw [if_pos found]
    exact .kept found
  · rw [if_neg found]
    have missing : fs.lookup dest = none := Option.not_isSome_iff_eq_none.mp found
    cases dest with
    | nil => cases fs.root.symm.trans missing
    | cons name p =>
        cases create : fs.write default (name :: p) with
        | none =>
            rw [Effect.exec_bind_error (exec_change_none create)]
            refine .impossible missing ?_
            rintro _ _ ⟨⟩ parent
            obtain ⟨fs', made⟩ := write_isSome default parent (by rw [missing]; exact nofun)
            cases create.symm.trans made
        | some created =>
            rw [Effect.exec_bind_ok (exec_change_some create)]
            obtain ⟨parent, _, lookups⟩ := write_eq_some create
            have free : created.lookup (name :: p) ≠ some .directory := by
              rw [lookups, if_pos rfl]
              exact nofun
            have still : created.lookup p = some .directory := by
              rw [lookups, if_neg (List.cons_ne_self name p).symm]
              exact parent
            by_cases readable : ∃ content, created.lookup src = some (.file content)
            · obtain ⟨content, source⟩ := readable
              obtain ⟨fs', write⟩ := write_isSome content still free
              obtain ⟨_, _, written⟩ := write_eq_some write
              rw [Effect.exec_bind_ok (exec_readFile_ok source), exec_change_some write]
              have original : src ≠ name :: p → fs.lookup src = some (.file content) := by
                intro other
                rw [lookups, if_neg other] at source
                exact source
              have new : HasNew fs fs' (name :: p) content := by
                intro q
                rw [written, lookups]
                split <;> rfl
              exact .copied missing original new
            · have unread := not_exists.mp readable
              rw [Effect.exec_bind_error (exec_readFile_error unread)]
              exact .unreadable missing lookups unread

/-- Everything is left as it was, and what is new stands at or below a location, or is a
directory above it. -/
structure Changes (dest : Location N) (fs fs' : FileSystem N Content) : Prop where
  more : Extends fs fs'
  frame : ∀ q, ¬ dest <:+ q →
    fs'.lookup q = fs.lookup q ∨ fs'.lookup q = some .directory ∧ q <:+ dest

theorem Changes.refl (dest : Location N) (fs : FileSystem N Content) : Changes dest fs fs :=
  ⟨.refl fs, fun _ _ => .inl rfl⟩

theorem Changes.trans {dest : Location N} {fs fs' fs'' : FileSystem N Content}
    (first : Changes dest fs fs') (second : Changes dest fs' fs'') : Changes dest fs fs'' := by
  refine ⟨first.more.trans second.more, ?_⟩
  intro q outside
  rcases second.frame q outside with same | new
  · rw [same]
    exact first.frame q outside
  · exact .inr new

theorem Changes.entry {dest : Location N} {name : N} {fs fs' : FileSystem N Content}
    (changes : Changes (name :: dest) fs fs') : Changes dest fs fs' := by
  refine ⟨changes.more, ?_⟩
  intro q outside
  rcases changes.frame q fun inside => outside ((List.suffix_cons name dest).trans inside) with
    same | ⟨directory, upper⟩
  · exact .inl same
  · rcases List.suffix_cons_iff.mp upper with rfl | above
    · exact absurd (List.suffix_cons name dest) outside
    · exact .inr ⟨directory, above⟩

theorem Changes.of_hasNew {dest : Location N} {fs fs' : FileSystem N Content} {content : Content}
    (missing : fs.lookup dest = none) (new : HasNew fs fs' dest content) : Changes dest fs fs' := by
  refine ⟨?_, ?_⟩
  · intro q node found
    have other : q ≠ dest := by
      rintro rfl
      cases missing.symm.trans found
    rw [new, if_neg other]
    exact found
  · intro q outside
    have other : q ≠ dest := fun same => outside (same ▸ List.suffix_rfl)
    rw [new, if_neg other]
    exact .inl rfl

section Steps

variable [Inhabited Content] {fs : FileSystem N Content}

theorem changes_copy (src dest : Location N) (fs : FileSystem N Content) :
    Changes dest fs (Effect.exec (copy src dest) fs).2 := by
  have ends := exec_copy src dest fs
  generalize Effect.exec (copy src dest) fs = result at ends
  cases ends with
  | kept _ => exact .refl dest fs
  | impossible _ _ => exact .refl dest fs
  | unreadable missing created _ => exact .of_hasNew missing created
  | copied missing _ written => exact .of_hasNew missing written

omit [Inhabited Content] in
theorem changes_of_mkdirAll {dest : Location N} {fs' : FileSystem N Content}
    (made : fs.mkdirAll dest = some fs') : Changes dest fs fs' := by
  obtain ⟨_, more, lookups⟩ := mkdirAll_eq_some made
  refine ⟨more, ?_⟩
  intro q _
  exact lookups q

omit [Inhabited Content] in
theorem changes_ensureDirectory (dest : Location N) (fs : FileSystem N Content) :
    Changes dest fs (Effect.exec (ensureDirectory dest) fs).2 := by
  rw [ensureDirectory, Effect.exec_bind_ok (Effect.exec_get fs)]
  split
  · cases made : fs.mkdirAll dest with
    | none =>
        rw [exec_change_none made]
        exact .refl dest fs
    | some fs' =>
        rw [exec_change_some made]
        exact changes_of_mkdirAll made
  · exact .refl dest fs

theorem changes_copyEntry {copyDirectory : Location N → Location N → Files N Content Unit}
    (below : ∀ src dest fs, Changes dest fs (Effect.exec (copyDirectory src dest) fs).2)
    (src dest : Location N) (name : N) (fs : FileSystem N Content) :
    Changes (name :: dest) fs (Effect.exec (copyEntry copyDirectory src dest name) fs).2 := by
  rw [copyEntry, Effect.exec_bind_ok (Effect.exec_get fs)]
  split
  · exact .refl _ fs
  · have keeps : Effect.Keeps (Changes (name :: dest) fs)
        (ensureDirectory (name :: dest) >>= fun _ => copyDirectory (name :: src) (name :: dest)) :=
      Effect.Keeps.bind (fun _ changes => changes.trans (changes_ensureDirectory _ _))
        fun _ _ changes => changes.trans (below _ _ _)
    exact keeps fs (.refl _ fs)
  · exact changes_copy _ _ fs

theorem changes_entries {copyDirectory : Location N → Location N → Files N Content Unit}
    (below : ∀ src dest fs, Changes dest fs (Effect.exec (copyDirectory src dest) fs).2)
    (src dest : Location N) (names : List N) (fs : FileSystem N Content) :
    Changes dest fs (Effect.exec (forM names (copyEntry copyDirectory src dest)) fs).2 := by
  have keeps : Effect.Keeps (Changes dest fs) (forM names (copyEntry copyDirectory src dest)) :=
    Effect.Keeps.forM fun name _ _ changes =>
      changes.trans (changes_copyEntry below src dest name _).entry
  exact keeps fs (.refl dest fs)

theorem changes_copyDirectory (fuel : Nat) (src dest : Location N) (fs : FileSystem N Content) :
    Changes dest fs (Effect.exec (copyDirectory fuel src dest) fs).2 := by
  induction fuel generalizing src dest fs with
  | zero => exact .refl dest fs
  | succ fuel ih =>
      rw [copyDirectory, Effect.exec_bind_ok (Effect.exec_get fs)]
      split
      · exact changes_entries ih src dest (fs.readDir src) fs
      · exact .refl dest fs

end Steps

omit [LinearOrder N] in
/-- Locations below two entries of one directory are different. -/
theorem name_eq_of_suffix {name other : N} {dest q : Location N} (below : name :: dest <:+ q)
    (beside : other :: dest <:+ q) : other = name := by
  have same : other :: dest <:+ name :: dest :=
    List.suffix_of_suffix_length_le beside below (Nat.le_refl _)
  exact (List.cons.inj (same.eq_of_length rfl)).1

/-- What an entry changes leaves everything below another entry alone. -/
theorem Changes.beside {name other : N} {dest q : Location N} {fs fs' : FileSystem N Content}
    (changes : Changes (other :: dest) fs fs') (below : name :: dest <:+ q)
    (different : other ≠ name) : fs'.lookup q = fs.lookup q := by
  rcases changes.frame q fun beside => different (name_eq_of_suffix below beside) with
    same | ⟨_, above⟩
  · exact same
  · exact absurd (name_eq_of_suffix (below.trans above) List.suffix_rfl) different

theorem ensureDirectory_below {dest : Location N} {fs fs' : FileSystem N Content}
    {result : Except CopyError Unit} (ran : Effect.exec (ensureDirectory dest) fs = (result, fs'))
    {r : Location N} (below : r ≠ []) : fs'.lookup (r ++ dest) = fs.lookup (r ++ dest) := by
  rw [ensureDirectory, Effect.exec_bind_ok (Effect.exec_get fs)] at ran
  split at ran
  · cases made : fs.mkdirAll dest with
    | none =>
        rw [exec_change_none made] at ran
        cases ran
        rfl
    | some made_fs =>
        rw [exec_change_some made] at ran
        cases ran
        obtain ⟨_, _, lookups⟩ := mkdirAll_eq_some made
        rcases lookups (r ++ dest) with same | ⟨_, above⟩
        · exact same
        · have positive := List.length_pos_iff.mpr below
          have short := above.length_le
          rw [List.length_append] at short
          omega
  · cases ran
    rfl

section Success

variable [Inhabited Content] {fs fs' : FileSystem N Content} {content : Content}

theorem copy_ok {src dest : Location N} (ran : Effect.exec (copy src dest) fs = (.ok (), fs'))
    (file : fs.lookup src = some (.file content)) :
    fs'.lookup dest = (fs.lookup dest).or (some (.file content)) := by
  have ends := exec_copy src dest fs
  rw [ran] at ends
  cases ends with
  | kept found =>
      obtain ⟨node, here⟩ := Option.isSome_iff_exists.mp found
      rw [here]
      rfl
  | copied missing source written =>
      have other : src ≠ dest := by
        rintro rfl
        cases missing.symm.trans file
      cases file.symm.trans (source other)
      rw [written, if_pos rfl, missing]
      rfl

theorem copyEntry_ok {copyDirectory : Location N → Location N → Files N Content Unit}
    {src dest : Location N} {name : N}
    (below : ∀ {fs fs' : FileSystem N Content} {r : Location N} {content : Content},
      Effect.exec (copyDirectory (name :: src) (name :: dest)) fs = (.ok (), fs') →
      fs.lookup (r ++ name :: src) = some (.file content) →
      fs'.lookup (r ++ name :: dest) =
        (fs.lookup (r ++ name :: dest)).or (some (.file content)))
    (ran : Effect.exec (copyEntry copyDirectory src dest name) fs = (.ok (), fs')) {r : Location N}
    (file : fs.lookup (r ++ name :: src) = some (.file content)) :
    fs'.lookup (r ++ name :: dest) =
      (fs.lookup (r ++ name :: dest)).or (some (.file content)) := by
  rw [copyEntry, Effect.exec_bind_ok (Effect.exec_get fs)] at ran
  cases r with
  | nil =>
      rw [List.nil_append] at file ⊢
      rw [file] at ran
      exact copy_ok ran file
  | cons leaf r =>
      have nonempty := List.cons_ne_nil leaf r
      have directory : fs.lookup (name :: src) = some .directory :=
        lookup_suffix nonempty (by rw [file]; rfl)
      rw [directory] at ran
      obtain ⟨_, made, first, rest⟩ := Effect.exec_bind_eq_ok.mp ran
      have more : Extends fs made := by
        have changes := changes_ensureDirectory (name :: dest) fs
        rw [first] at changes
        exact changes.more
      rw [below rest (more _ _ file), ensureDirectory_below first nonempty]

/-- Each file of the source is at its place in the destination after a copy that succeeded,
and what was there before still is. -/
theorem copyDirectory_ok {fuel : Nat} {src dest : Location N}
    (ran : Effect.exec (copyDirectory fuel src dest) fs = (.ok (), fs')) {r : Location N}
    (file : fs.lookup (r ++ src) = some (.file content)) :
    fs'.lookup (r ++ dest) = (fs.lookup (r ++ dest)).or (some (.file content)) := by
  induction fuel generalizing src dest fs fs' r content with
  | zero => cases congrArg Prod.fst ran
  | succ fuel ih =>
      rw [copyDirectory, Effect.exec_bind_ok (Effect.exec_get fs)] at ran
      split at ran
      next directory =>
        cases r using List.reverseRecOn with
        | nil => cases directory.symm.trans file
        | append_singleton r name =>
            rw [List.append_assoc, List.singleton_append] at file ⊢
            have listed : name ∈ fs.readDir src :=
              mem_readDir.mpr (isSome_suffix (by rw [file]; rfl))
            obtain ⟨before, after, names⟩ := List.append_of_mem listed
            have fresh : name ∉ before := by
              have once := names ▸ nodup_readDir fs src
              exact (List.nodup_append.mp once).2.2 |> fun apart member =>
                apart name member name List.mem_cons_self rfl
            rw [names] at ran
            obtain ⟨t, t', first, entry, rest⟩ := Effect.exec_forM_ok ran
            have below : name :: dest <:+ r ++ name :: dest := List.suffix_append r _
            -- the entries before this one leave its place alone
            have early : Changes dest fs t ∧
                t.lookup (r ++ name :: dest) = fs.lookup (r ++ name :: dest) := by
              have keeps : Effect.Keeps (fun s => Changes dest fs s ∧
                  s.lookup (r ++ name :: dest) = fs.lookup (r ++ name :: dest))
                  (forM before (copyEntry (copyDirectory fuel) src dest)) := by
                apply Effect.Keeps.forM
                intro other member s holds
                have changes := changes_copyEntry (changes_copyDirectory fuel) src dest other s
                have different : other ≠ name := fun same => fresh (same ▸ member)
                exact ⟨holds.1.trans changes.entry, (changes.beside below different).trans holds.2⟩
              have final := keeps fs ⟨.refl dest fs, rfl⟩
              rw [first] at final
              exact final
            have late : Extends t' fs' := by
              have changes := changes_entries (changes_copyDirectory fuel) src dest after t'
              rw [rest] at changes
              exact changes.more
            have placed := copyEntry_ok (fun ran file => ih ran file) entry (early.1.more _ _ file)
            rw [early.2] at placed
            cases old : fs.lookup (r ++ name :: dest) with
            | none =>
                rw [old] at placed
                exact late _ _ placed
            | some node =>
                rw [old] at placed
                exact late _ _ placed
      · cases congrArg Prod.fst ran

end Success

end DseFmi.Operations
