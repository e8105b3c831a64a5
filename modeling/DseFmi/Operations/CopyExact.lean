import DseFmi.Library.FileTree
import DseFmi.Operations.CopyResult

/-!
# Copies that end

A copy reads the source while it writes into the destination. It ends with exactly the files
of the source when nothing that it creates is below an entry of the source; with the
destination below an entry of the source it never succeeds.
-/

namespace DseFmi.Operations

open DseFmi.Library FileSystem

variable {N Content : Type} [LinearOrder N]

/-- What a copy may create: a directory above the destination, or the place of a node of the
source. -/
def MayCreate (fs : FileSystem N Content) (src dest q : Location N) : Prop :=
  q <:+ dest ∨ ∃ r, q = r ++ dest ∧ (fs.lookup (r ++ src)).isSome = true

structure Copyable (fs : FileSystem N Content) (src dest : Location N) : Prop where
  directory : fs.lookup src = some .directory
  apart : ∀ name t, (fs.lookup (name :: src)).isSome = true →
    fs.lookup (t ++ name :: src) = none → ¬ MayCreate fs src dest (t ++ name :: src)
  free : ∀ r content, fs.lookup (r ++ src) = some (.file content) →
    fs.blocked (r ++ dest) = false ∧
      (fs.lookup (r ++ dest) = none ∨ fs.lookup (r ++ dest) = some (.file content))
  first : fs.lookup dest = some .directory ∨
    ∀ name ∈ (fs.readDir src).head?, ∀ content, fs.lookup (name :: src) ≠ some (.file content)

/-- The copy ends; each file of the source is then in its place, and every other file was
there before. -/
def CopiesExactly [Inhabited Content] (fs : FileSystem N Content) (src dest : Location N) : Prop :=
  ∃ fuel fs', Effect.exec (copyDirectory fuel src dest) fs = (.ok (), fs') ∧
    (∀ r content, fs.lookup (r ++ src) = some (.file content) →
      fs'.lookup (r ++ dest) = some (.file content)) ∧
    ∀ q content, fs'.lookup q = some (.file content) → fs.lookup q = some (.file content) ∨
      ∃ r, q = r ++ dest ∧ fs.lookup (r ++ src) = some (.file content)

/-- A location is as before, or it is new: a directory above the destination, or a copy of the
node of the source. -/
def Grown (fs : FileSystem N Content) (src dest : Location N) (s : FileSystem N Content) : Prop :=
  ∀ q, s.lookup q = fs.lookup q ∨ fs.lookup q = none ∧
    (q <:+ dest ∧ s.lookup q = some .directory ∨
      ∃ r node, q = r ++ dest ∧ fs.lookup (r ++ src) = some node ∧ s.lookup q = some node)

variable {fs s s' : FileSystem N Content} {src dest p : Location N} {name : N}

theorem Grown.refl (fs : FileSystem N Content) (src dest : Location N) : Grown fs src dest fs :=
  fun _ => .inl rfl

theorem Grown.kept (grown : Grown fs src dest s) {q : Location N} {node : Node Content}
    (found : fs.lookup q = some node) : s.lookup q = some node := by
  rcases grown q with same | ⟨missing, _⟩
  · rw [same, found]
  · cases missing.symm.trans found

/-- What changes where nothing was, and makes what may be made, grows. -/
theorem Grown.step (grown : Grown fs src dest s)
    (changes : ∀ q, s'.lookup q = s.lookup q ∨ s.lookup q = none ∧
      (q <:+ dest ∧ s'.lookup q = some .directory ∨
        ∃ r node, q = r ++ dest ∧ fs.lookup (r ++ src) = some node ∧ s'.lookup q = some node)) :
    Grown fs src dest s' := by
  intro q
  rcases changes q with same | ⟨missing, new⟩
  · rw [same]
    exact grown q
  · refine .inr ⟨?_, new⟩
    rcases grown q with old | ⟨old, _⟩
    · rw [← old, missing]
    · exact old

/-- Everything below an entry of the source stays as it is. -/
theorem Grown.frozen (grown : Grown fs src dest s) (copyable : Copyable fs src dest)
    (entry : (fs.lookup (name :: src)).isSome = true) (t : Location N) :
    s.lookup (t ++ name :: src) = fs.lookup (t ++ name :: src) := by
  rcases grown (t ++ name :: src) with same | ⟨missing, above | ⟨r, node, place, found, _⟩⟩
  · exact same
  · exact absurd (.inl above.1) (copyable.apart name t entry missing)
  · exact absurd (.inr ⟨r, place, by rw [found]; rfl⟩) (copyable.apart name t entry missing)

/-- A node of the source is still there, and what is below it is as before. -/
theorem Grown.source (grown : Grown fs src dest s) (copyable : Copyable fs src dest)
    (below : p ≠ []) (there : (fs.lookup (p ++ src)).isSome = true) (t : Location N) :
    s.lookup (t ++ (p ++ src)) = fs.lookup (t ++ (p ++ src)) := by
  obtain ⟨r, top, rfl⟩ : ∃ r top, p = r ++ [top] :=
    ⟨_, _, (List.dropLast_append_getLast below).symm⟩
  rw [List.append_assoc, List.singleton_append] at there ⊢
  rw [← List.append_assoc]
  exact grown.frozen copyable (isSome_suffix there) _

/-- No file is above the place of a file of the source. -/
theorem Grown.opened (grown : Grown fs src dest s) (copyable : Copyable fs src dest)
    {content : Content} (file : fs.lookup (name :: (p ++ src)) = some (.file content)) :
    ∀ q other, q <:+ p ++ dest → s.lookup q ≠ some (.file other) := by
  intro q other above found
  have before := blocked_eq_false_iff.mp (copyable.free (name :: p) content file).1
  have proper : q ≠ name :: p ++ dest := by
    rintro rfl
    have short := above.length_le
    rw [List.cons_append, List.length_cons] at short
    omega
  have higher : q <:+ name :: p ++ dest := above.trans (List.suffix_cons name _)
  rcases grown q with same | ⟨_, ⟨_, directory⟩ | ⟨r, node, rfl, source, new⟩⟩
  · rw [same] at found
    exact before q other higher proper found
  · cases directory.symm.trans found
  · -- a copy of a node above the file is a directory
    obtain ⟨t, way⟩ := List.suffix_append_self_iff.mp above
    have directory : fs.lookup (r ++ src) = some .directory := by
      apply lookup_suffix (List.cons_ne_nil name t)
      rw [List.cons_append, ← List.append_assoc, way, file]
      rfl
    rw [source] at directory
    rw [new, directory] at found
    cases found

/-- Making the directories for a place succeeds, and changes nothing if there is something in
the way. -/
theorem exec_ensureDirectory (dest : Location N) (fs : FileSystem N Content) :
    ∃ fs', Effect.exec (ensureDirectory dest) fs = (.ok (), fs') ∧
      (fs' = fs ∧ ((fs.lookup dest).isSome = true ∨ fs.blocked dest = true) ∨
        fs.lookup dest = none ∧ fs.mkdirAll dest = some fs') := by
  rw [ensureDirectory, Effect.exec_bind_ok (Effect.exec_get fs)]
  split
  next absent =>
    have free : ∀ content, fs.lookup dest ≠ some (.file content) := by
      intro content file
      cases absent.1.symm.trans file
    obtain ⟨fs', made⟩ := mkdirAll_isSome free absent.2
    exact ⟨fs', exec_change_some made, .inr ⟨absent.1, made⟩⟩
  next present =>
    refine ⟨fs, rfl, .inl ⟨rfl, ?_⟩⟩
    by_cases missing : fs.lookup dest = none
    · exact .inr (Bool.not_eq_false _ ▸ fun opened => present ⟨missing, opened⟩)
    · exact .inl (Option.isSome_iff_ne_none.mpr missing)

/-- Making the directories for the place of a directory of the source grows. -/
theorem Grown.ensureDirectory (grown : Grown fs src dest s)
    (directory : fs.lookup (p ++ src) = some .directory) :
    ∃ s', Effect.exec (Operations.ensureDirectory (p ++ dest)) s = (.ok (), s') ∧
      Grown fs src dest s' ∧
      ((s.lookup (p ++ dest)).isSome = true ∨ s.blocked (p ++ dest) = true ∨
        s'.lookup (p ++ dest) = some .directory) := by
  obtain ⟨s', ran, ⟨rfl, there | closed⟩ | ⟨_, made⟩⟩ := exec_ensureDirectory (p ++ dest) s
  · exact ⟨s', ran, grown, .inl there⟩
  · exact ⟨s', ran, grown, .inr (.inl closed)⟩
  · obtain ⟨bottom, more, lookups⟩ := mkdirAll_eq_some made
    refine ⟨s', ran, grown.step fun q => ?_, .inr (.inr bottom)⟩
    cases old : s.lookup q with
    | some node => exact .inl (more q node old)
    | none =>
        rcases lookups q with same | ⟨new, above⟩
        · exact .inl (same.trans old)
        · refine .inr ⟨rfl, ?_⟩
          rcases List.suffix_or_suffix_of_suffix above (List.suffix_append p dest) with
            higher | ⟨r, rfl⟩
          · exact .inl ⟨higher, new⟩
          · obtain ⟨t, rfl⟩ := List.suffix_append_self_iff.mp above
            refine .inr ⟨r, .directory, rfl, ?_, new⟩
            cases t with
            | nil => exact directory
            | cons leaf t =>
                apply lookup_suffix (List.cons_ne_nil leaf t)
                rw [← List.append_assoc, directory]
                rfl

variable [Inhabited Content]

theorem Grown.copy (grown : Grown fs src dest s) {content : Content}
    (file : fs.lookup (name :: (p ++ src)) = some (.file content))
    (parent : s.lookup (p ++ dest) = some .directory) :
    ∃ s', Effect.exec (Operations.copy (name :: (p ++ src)) (name :: (p ++ dest))) s =
      (.ok (), s') ∧ Grown fs src dest s' := by
  have source := grown.kept file
  have ends := exec_copy (name :: (p ++ src)) (name :: (p ++ dest)) s
  generalize Effect.exec (Operations.copy (name :: (p ++ src)) (name :: (p ++ dest))) s = result
    at ends
  have other : s.lookup (name :: (p ++ dest)) = none →
    name :: (p ++ src) ≠ name :: (p ++ dest) := by
    intro missing same
    rw [same] at source
    cases missing.symm.trans source
  cases ends with
  | kept _ => exact ⟨s, rfl, grown⟩
  | impossible _ noParent => exact absurd parent (noParent name (p ++ dest) rfl)
  | unreadable missing created unread =>
      refine absurd ?_ (unread content)
      rw [created, if_neg (other missing)]
      exact source
  | copied missing read written =>
      cases source.symm.trans (read (other missing))
      refine ⟨_, rfl, grown.step fun q => ?_⟩
      rw [written]
      by_cases here : q = name :: (p ++ dest)
      · rw [if_pos here]
        rw [here]
        exact .inr ⟨missing, .inr ⟨name :: p, _, rfl, file, rfl⟩⟩
      · rw [if_neg here]
        exact .inl rfl

/-- The files of a directory can be copied: it is there, or no file comes first. -/
def Ready (fs : FileSystem N Content) (src dest p : Location N) (names : List N)
    (s : FileSystem N Content) : Prop :=
  s.lookup (p ++ dest) = some .directory ∨
    ∀ name ∈ names.head?, ∀ content, fs.lookup (name :: (p ++ src)) ≠ some (.file content)

omit [Inhabited Content] in
/-- With files to copy, the directory is there once there is an entry in it. -/
theorem Grown.directory_of_entry (grown : Grown fs src dest s) (copyable : Copyable fs src dest)
    {child : N} {content : Content}
    (file : fs.lookup (child :: (p ++ src)) = some (.file content))
    (more : Extends s s')
    (entry : (s.lookup (name :: p ++ dest)).isSome = true ∨
      s.blocked (name :: p ++ dest) = true ∨ s'.lookup (name :: p ++ dest) = some .directory) :
    s'.lookup (p ++ dest) = some .directory := by
  rcases entry with there | closed | made
  · exact more _ _ (lookup_above there)
  · have opened : s.blocked (name :: p ++ dest) = false := by
      apply blocked_eq_false_iff.mpr
      intro q other above proper
      rcases List.suffix_cons_iff.mp above with same | higher
      · exact absurd same proper
      · exact grown.opened copyable file q other higher
    rw [opened] at closed
    cases closed
  · have there : (s'.lookup (name :: (p ++ dest))).isSome = true :=
      Option.isSome_iff_exists.mpr ⟨_, made⟩
    exact lookup_above there

omit [Inhabited Content] in
/-- With files to copy, the directory itself is there once it is made. -/
theorem Grown.directory_of_files (grown : Grown fs src dest s) (copyable : Copyable fs src dest)
    {child : N} {content : Content}
    (file : fs.lookup (child :: (p ++ src)) = some (.file content))
    (more : Extends s s')
    (made : (s.lookup (p ++ dest)).isSome = true ∨ s.blocked (p ++ dest) = true ∨
      s'.lookup (p ++ dest) = some .directory) :
    s'.lookup (p ++ dest) = some .directory := by
  have opened := grown.opened copyable file
  rcases made with there | closed | made
  · obtain ⟨node, found⟩ := Option.isSome_iff_exists.mp there
    cases node with
    | directory => exact more _ _ found
    | file other => exact absurd found (opened _ other List.suffix_rfl)
  · rw [blocked_eq_false_iff.mpr fun q other above _ => opened q other above] at closed
    cases closed
  · exact made

/-- Copying the directories of the source, as far as the recursion goes. -/
def CopiesBelow (fs : FileSystem N Content) (src dest : Location N) (fuel : Nat) : Prop :=
  ∀ (p : Location N) (s : FileSystem N Content), p ≠ [] → fs.lookup (p ++ src) = some .directory →
    fs.Shallow fuel (p ++ src) → Grown fs src dest s →
    Ready fs src dest p (s.readDir (p ++ src)) s →
    ∃ s', Effect.exec (copyDirectory fuel (p ++ src) (p ++ dest)) s = (.ok (), s') ∧
      Grown fs src dest s'

theorem Grown.copyEntry (grown : Grown fs src dest s) (copyable : Copyable fs src dest) {fuel : Nat}
    (below : CopiesBelow fs src dest fuel) (shallow : fs.Shallow (fuel + 1) (p ++ src))
    (there : (fs.lookup (name :: (p ++ src))).isSome = true) {names : List N}
    (ready : Ready fs src dest p (name :: names) s) :
    ∃ s', Effect.exec
        (Operations.copyEntry (copyDirectory fuel) (p ++ src) (p ++ dest) name) s = (.ok (), s') ∧
      Grown fs src dest s' ∧ Ready fs src dest p names s' := by
  have changes := changes_copyEntry (changes_copyDirectory fuel) (p ++ src) (p ++ dest) name s
  have source : s.lookup (name :: (p ++ src)) = fs.lookup (name :: (p ++ src)) :=
    grown.source copyable (List.cons_ne_nil name p) there []
  rw [Operations.copyEntry, Effect.exec_bind_ok (Effect.exec_get s)] at changes ⊢
  rw [source] at changes ⊢
  obtain ⟨node, found⟩ := Option.isSome_iff_exists.mp there
  rw [found] at changes ⊢
  cases node with
  | file content =>
      have parent : s.lookup (p ++ dest) = some .directory :=
        ready.resolve_right fun noFile => noFile name rfl content found
      obtain ⟨s', ran, grown'⟩ := grown.copy found parent
      rw [ran] at changes
      exact ⟨s', ran, grown', .inl (changes.more _ _ parent)⟩
  | directory =>
      obtain ⟨made, first, grownMade, entry⟩ :=
        grown.ensureDirectory (p := name :: p) found
      have moreMade : Extends s made := by
        have step := changes_ensureDirectory (name :: p ++ dest) s
        rw [first] at step
        exact step.more
      have inner : Ready fs src dest (name :: p) (made.readDir (name :: p ++ src)) made := by
        by_cases files : ∃ child content,
            fs.lookup (child :: (name :: p ++ src)) = some (.file content)
        · obtain ⟨child, content, file⟩ := files
          exact .inl (grown.directory_of_files copyable file moreMade entry)
        · exact .inr fun child _ content file => files ⟨child, content, file⟩
      obtain ⟨s', rest, grown'⟩ := below (name :: p) made (List.cons_ne_nil name p) found
        (shallow.entry name) grownMade inner
      have ran : Effect.exec (Operations.ensureDirectory (name :: (p ++ dest)) >>= fun _ =>
          copyDirectory fuel (name :: (p ++ src)) (name :: (p ++ dest))) s = (.ok (), s') :=
        (Effect.exec_bind_ok first).trans rest
      refine ⟨s', ran, grown', ?_⟩
      rw [ran] at changes
      by_cases files : ∃ child content, fs.lookup (child :: (p ++ src)) = some (.file content)
      · obtain ⟨child, content, file⟩ := files
        have directory := grown.directory_of_entry copyable file moreMade entry
        have moreRest : Extends made s' := by
          have step := changes_copyDirectory fuel (name :: (p ++ src)) (name :: (p ++ dest)) made
          rw [show Effect.exec (copyDirectory fuel (name :: (p ++ src)) (name :: (p ++ dest)))
            made = (.ok (), s') from rest] at step
          exact step.more
        exact .inl (moreRest _ _ directory)
      · exact .inr fun child _ content file => files ⟨child, content, file⟩

theorem Grown.entries (grown : Grown fs src dest s) (copyable : Copyable fs src dest) {fuel : Nat}
    (below : CopiesBelow fs src dest fuel) (shallow : fs.Shallow (fuel + 1) (p ++ src))
    {names : List N} (there : ∀ name ∈ names, (fs.lookup (name :: (p ++ src))).isSome = true)
    (ready : Ready fs src dest p names s) :
    ∃ s', Effect.exec
        (forM names (Operations.copyEntry (copyDirectory fuel) (p ++ src) (p ++ dest))) s =
          (.ok (), s') ∧ Grown fs src dest s' := by
  induction names generalizing s with
  | nil => exact ⟨s, rfl, grown⟩
  | cons name names ih =>
      obtain ⟨s₁, first, grown₁, ready₁⟩ :=
        grown.copyEntry copyable below shallow (there name List.mem_cons_self) ready
      obtain ⟨s₂, rest, grown₂⟩ :=
        ih grown₁ (fun other member => there other (List.mem_cons_of_mem name member)) ready₁
      rw [List.forM_cons, Effect.exec_bind_ok first]
      exact ⟨s₂, rest, grown₂⟩

theorem Grown.copyDirectory_succ (grown : Grown fs src dest s) (copyable : Copyable fs src dest)
    {fuel : Nat} (below : CopiesBelow fs src dest fuel)
    (directory : fs.lookup (p ++ src) = some .directory)
    (shallow : fs.Shallow (fuel + 1) (p ++ src))
    (listed : ∀ name, (s.lookup (name :: (p ++ src))).isSome = true →
      (fs.lookup (name :: (p ++ src))).isSome = true)
    (ready : Ready fs src dest p (s.readDir (p ++ src)) s) :
    ∃ s', Effect.exec (copyDirectory (fuel + 1) (p ++ src) (p ++ dest)) s = (.ok (), s') ∧
      Grown fs src dest s' := by
  rw [copyDirectory, Effect.exec_bind_ok (Effect.exec_get s), if_pos (grown.kept directory)]
  exact grown.entries copyable below shallow
    (fun name member => listed name (mem_readDir.mp member)) ready

theorem copiesBelow (copyable : Copyable fs src dest) (fuel : Nat) :
    CopiesBelow fs src dest fuel := by
  induction fuel with
  | zero =>
      intro p s _ directory shallow _ _
      exact absurd (shallow [] (by rw [List.nil_append, directory]; rfl)) (Nat.not_lt_zero _)
  | succ fuel ih =>
      intro p s nested directory shallow grown ready
      refine grown.copyDirectory_succ copyable ih directory shallow ?_ ready
      intro name there
      have same := grown.source copyable nested (by rw [directory]; rfl) [name]
      rw [List.singleton_append] at same
      rw [← same]
      exact there

/-- A copy that may begin ends with exactly the files of the source. -/
theorem copiesExactly_of_copyable (copyable : Copyable fs src dest) :
    CopiesExactly fs src dest := by
  have start : Ready fs src dest [] (fs.readDir src) fs := copyable.first
  obtain ⟨fs', ran, grown⟩ := (Grown.refl fs src dest).copyDirectory_succ copyable (p := [])
    (copiesBelow copyable fs.height) copyable.directory
    (fun r found => Nat.lt_succ_of_lt (shallow_height fs src r found)) (fun _ there => there) start
  refine ⟨fs.height + 1, fs', ran, ?_, ?_⟩
  · intro r content file
    have placed := copyDirectory_ok ran file
    rw [List.nil_append] at placed
    rw [placed]
    rcases (copyable.free r content file).2 with missing | same
    · rw [missing]
      rfl
    · rw [same]
      rfl
  · intro q content found
    rcases grown q with same | ⟨_, ⟨_, directory⟩ | ⟨r, node, place, source, new⟩⟩
    · exact .inl (same.symm.trans found)
    · cases directory.symm.trans found
    · rw [found] at new
      exact .inr ⟨r, place, source.trans new.symm⟩

end DseFmi.Operations
