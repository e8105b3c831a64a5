import Mathlib.Data.List.AList
import Mathlib.Data.List.Sort

/-!
# File systems

Finitely many directories and files. A location is a path by its elements, the last one
first, so that the directory of a location is its tail. Whatever stands at a location stands
in a directory.
-/

namespace DseFmi.Library

abbrev Location (N : Type) := List N

inductive Node (α : Type) where
  | directory
  | file (content : α)
  deriving DecidableEq, Repr

def Node.isDir {α : Type} : Node α → Bool
  | .directory => true
  | .file _ => false

structure FileSystem (N α : Type) [LinearOrder N] where
  nodes : AList fun _ : Location N => Node α
  root : nodes.lookup [] = some .directory
  above : ∀ name p, (nodes.lookup (name :: p)).isSome = true → nodes.lookup p = some .directory

namespace FileSystem

variable {N α : Type} [LinearOrder N]

def lookup (fs : FileSystem N α) (p : Location N) : Option (Node α) := fs.nodes.lookup p

@[simp] theorem lookup_root (fs : FileSystem N α) : fs.lookup [] = some .directory := fs.root

theorem lookup_above {fs : FileSystem N α} {name : N} {p : Location N}
    (found : (fs.lookup (name :: p)).isSome = true) : fs.lookup p = some .directory :=
  fs.above name p found

theorem lookup_suffix {fs : FileSystem N α} {r p : Location N} (below : r ≠ [])
    (found : (fs.lookup (r ++ p)).isSome = true) : fs.lookup p = some .directory := by
  induction r with
  | nil => exact absurd rfl below
  | cons name r ih =>
      have upper := lookup_above found
      cases r with
      | nil => exact upper
      | cons other r =>
          apply ih (List.cons_ne_nil other r)
          rw [show fs.lookup (other :: r ++ p) = some .directory from upper]
          rfl

theorem isSome_suffix {fs : FileSystem N α} {r p : Location N}
    (found : (fs.lookup (r ++ p)).isSome = true) : (fs.lookup p).isSome = true := by
  cases r with
  | nil => exact found
  | cons name r =>
      rw [lookup_suffix (List.cons_ne_nil name r) found]
      rfl

theorem lookup_below_file {fs : FileSystem N α} {p r : Location N} {content : α}
    (file : fs.lookup p = some (.file content)) (below : r ≠ []) : fs.lookup (r ++ p) = none := by
  cases found : fs.lookup (r ++ p) with
  | none => rfl
  | some node =>
      have directory := lookup_suffix below (by rw [found]; rfl)
      cases file.symm.trans directory

theorem mem_keys {fs : FileSystem N α} {p : Location N} (found : (fs.lookup p).isSome = true) :
    p ∈ fs.nodes.keys := by
  rw [lookup, AList.lookup_isSome, AList.mem_keys] at found
  exact found

/-- Put a node into a directory; a directory stays one. -/
def put (fs : FileSystem N α) (name : N) (p : Location N) (node : Node α)
    (parent : fs.lookup p = some .directory)
    (fits : fs.lookup (name :: p) = some .directory → node = .directory) : FileSystem N α where
  nodes := fs.nodes.insert (name :: p) node
  root := by
    rw [AList.lookup_insert_ne (List.cons_ne_nil name p).symm]
    exact fs.root
  above := by
    intro other q found
    by_cases here : other :: q = name :: p
    · obtain ⟨rfl, rfl⟩ := List.cons.inj here
      rw [AList.lookup_insert_ne (List.cons_ne_self other q).symm]
      exact parent
    · rw [AList.lookup_insert_ne here] at found
      have directory := fs.above other q found
      by_cases inside : q = name :: p
      · rw [inside] at directory ⊢
        rw [AList.lookup_insert, fits directory]
      · rw [AList.lookup_insert_ne inside]
        exact directory

theorem lookup_put {fs : FileSystem N α} {name : N} {p : Location N} {node : Node α}
    (parent : fs.lookup p = some .directory)
    (fits : fs.lookup (name :: p) = some .directory → node = .directory) (q : Location N) :
    (fs.put name p node parent fits).lookup q =
      if q = name :: p then some node else fs.lookup q := by
  by_cases here : q = name :: p
  · rw [if_pos here, here]
    exact AList.lookup_insert fs.nodes
  · rw [if_neg here]
    exact AList.lookup_insert_ne here

def isDirectory (fs : FileSystem N α) (p : Location N) : Bool :=
  match fs.lookup p with
  | some .directory => true
  | _ => false

theorem isDirectory_iff {fs : FileSystem N α} {p : Location N} :
    fs.isDirectory p = true ↔ fs.lookup p = some .directory := by
  rw [isDirectory]
  split
  next found =>
    exact ⟨fun _ => found, fun _ => rfl⟩
  next other =>
    exact ⟨fun wrong => (nomatch wrong), fun found => absurd found other⟩

instance (fs : FileSystem N α) (p : Location N) : Decidable (fs.lookup p = some .directory) :=
  decidable_of_iff _ isDirectory_iff

/-- A new directory; its parent must be there. -/
def mkdir (fs : FileSystem N α) : Location N → Option (FileSystem N α)
  | [] => none
  | name :: p =>
      if h : fs.lookup p = some .directory ∧ fs.lookup (name :: p) = none then
        some (fs.put name p .directory h.1 fun _ => rfl)
      else none

/-- A new file, or an old one with a new content. -/
def write (fs : FileSystem N α) (content : α) : Location N → Option (FileSystem N α)
  | [] => none
  | name :: p =>
      if h : fs.lookup p = some .directory ∧ fs.lookup (name :: p) ≠ some .directory then
        some (fs.put name p (.file content) h.1 fun directory => absurd directory h.2)
      else none

def mkdirAll (fs : FileSystem N α) : Location N → Option (FileSystem N α)
  | [] => some fs
  | name :: p =>
      match fs.lookup (name :: p) with
      | some .directory => some fs
      | some (.file _) => none
      | none => (fs.mkdirAll p).bind fun fs => fs.mkdir (name :: p)

/-- Whether something above a location is a file. -/
def blocked (fs : FileSystem N α) : Location N → Bool
  | [] => false
  | _ :: p =>
      match fs.lookup p with
      | some .directory => false
      | some (.file _) => true
      | none => fs.blocked p

def empty : FileSystem N α where
  nodes := (∅ : AList fun _ : Location N => Node α).insert [] .directory
  root := AList.lookup_insert _
  above := by
    intro name p found
    rw [AList.lookup_insert_ne (List.cons_ne_nil name p), AList.lookup_empty] at found
    cases found

/-- Some nodes, each of which has its directory before it; others are left out. -/
def ofNodes (nodes : List (Location N × Node α)) : FileSystem N α :=
  nodes.foldl (fun fs item =>
    match item.2 with
    | .directory => (fs.mkdir item.1).getD fs
    | .file content => (fs.write content item.1).getD fs) empty

def nameIn (p : Location N) : Location N → Option N
  | [] => none
  | name :: q => if q = p then some name else none

def readDir (fs : FileSystem N α) (p : Location N) : List N :=
  (fs.nodes.keys.filterMap (nameIn p)).insertionSort (· ≤ ·)

theorem mem_readDir {fs : FileSystem N α} {p : Location N} {name : N} :
    name ∈ fs.readDir p ↔ (fs.lookup (name :: p)).isSome = true := by
  rw [readDir, List.mem_insertionSort, List.mem_filterMap, lookup, AList.lookup_isSome,
    AList.mem_keys]
  constructor
  · rintro ⟨q, listed, here⟩
    cases q with
    | nil => cases here
    | cons other q =>
        rw [nameIn] at here
        split at here
        next same =>
          cases here
          exact same ▸ listed
        · cases here
  · intro listed
    exact ⟨name :: p, listed, if_pos rfl⟩

theorem nodup_readDir (fs : FileSystem N α) (p : Location N) : (fs.readDir p).Nodup := by
  rw [readDir, (List.perm_insertionSort _ _).nodup_iff]
  apply fs.nodes.keys_nodup.filterMap
  intro q q' name here there
  cases q with
  | nil => cases here
  | cons other q =>
      cases q' with
      | nil => cases there
      | cons other' q' =>
          rw [Option.mem_def, nameIn] at here there
          split at here
          next same =>
            split at there
            next same' =>
              cases here
              cases there
              rw [same, same']
            · cases there
          · cases here

/-- Without a node; a directory must be empty. -/
def remove (fs : FileSystem N α) : Location N → Option (FileSystem N α)
  | [] => none
  | name :: p =>
      if h : (fs.lookup (name :: p)).isSome = true ∧ fs.readDir (name :: p) = [] then
        some {
          nodes := fs.nodes.erase (name :: p)
          root := by
            rw [AList.lookup_erase_ne (List.cons_ne_nil name p).symm]
            exact fs.root
          above := by
            intro other q found
            have kept : other :: q ≠ name :: p := by
              intro same
              rw [same, AList.lookup_erase] at found
              cases found
            rw [AList.lookup_erase_ne kept] at found
            have outside : q ≠ name :: p := by
              rintro rfl
              exact absurd (mem_readDir.mpr found) (h.2 ▸ List.not_mem_nil)
            rw [AList.lookup_erase_ne outside]
            exact fs.above other q found }
      else none

/-- A file system in which everything of another one is left as it was. -/
def Extends (fs fs' : FileSystem N α) : Prop :=
  ∀ p node, fs.lookup p = some node → fs'.lookup p = some node

theorem Extends.refl (fs : FileSystem N α) : Extends fs fs := fun _ _ found => found

theorem Extends.trans {fs fs' fs'' : FileSystem N α} (first : Extends fs fs')
    (second : Extends fs' fs'') : Extends fs fs'' :=
  fun p node found => second p node (first p node found)

theorem Extends.isSome {fs fs' : FileSystem N α} (more : Extends fs fs') {p : Location N}
    (found : (fs.lookup p).isSome = true) : (fs'.lookup p).isSome = true := by
  obtain ⟨node, here⟩ := Option.isSome_iff_exists.mp found
  rw [more p node here]
  rfl

theorem mkdir_eq_some {fs fs' : FileSystem N α} {name : N} {p : Location N}
    (made : fs.mkdir (name :: p) = some fs') :
    fs.lookup p = some .directory ∧ fs.lookup (name :: p) = none ∧
      ∀ q, fs'.lookup q = if q = name :: p then some .directory else fs.lookup q := by
  rw [mkdir] at made
  split at made
  next h =>
    cases made
    exact ⟨h.1, h.2, lookup_put h.1 _⟩
  · cases made

theorem write_eq_some {fs fs' : FileSystem N α} {content : α} {name : N} {p : Location N}
    (written : fs.write content (name :: p) = some fs') :
    fs.lookup p = some .directory ∧ fs.lookup (name :: p) ≠ some .directory ∧
      ∀ q, fs'.lookup q = if q = name :: p then some (.file content) else fs.lookup q := by
  rw [write] at written
  split at written
  next h =>
    cases written
    exact ⟨h.1, h.2, lookup_put h.1 _⟩
  · cases written

theorem lookup_write {fs fs' : FileSystem N α} {content : α} {p q : Location N}
    (written : fs.write content p = some fs') (other : q ≠ p) : fs'.lookup q = fs.lookup q := by
  cases p with
  | nil => cases written
  | cons name p =>
      obtain ⟨_, _, lookups⟩ := write_eq_some written
      rw [lookups, if_neg other]

theorem remove_eq_some {fs fs' : FileSystem N α} {name : N} {p : Location N}
    (removed : fs.remove (name :: p) = some fs') :
    ∀ q, fs'.lookup q = if q = name :: p then none else fs.lookup q := by
  rw [remove] at removed
  split at removed
  · cases removed
    intro q
    by_cases here : q = name :: p
    · rw [if_pos here, here]
      exact AList.lookup_erase _ _
    · rw [if_neg here]
      exact AList.lookup_erase_ne here
  · cases removed

theorem write_isSome {fs : FileSystem N α} (content : α) {name : N} {p : Location N}
    (parent : fs.lookup p = some .directory) (free : fs.lookup (name :: p) ≠ some .directory) :
    ∃ fs', fs.write content (name :: p) = some fs' := by
  rw [write, dif_pos ⟨parent, free⟩]
  exact ⟨_, rfl⟩

/-- Directories that are made stand at the location or above it, where nothing was. -/
theorem mkdirAll_eq_some {fs fs' : FileSystem N α} {p : Location N}
    (made : fs.mkdirAll p = some fs') :
    fs'.lookup p = some .directory ∧ Extends fs fs' ∧
      ∀ q, fs'.lookup q = fs.lookup q ∨ fs'.lookup q = some .directory ∧ q <:+ p := by
  induction p generalizing fs' with
  | nil =>
      cases made
      exact ⟨fs.root, .refl fs, fun _ => .inl rfl⟩
  | cons name p ih =>
      rw [mkdirAll] at made
      split at made
      next found =>
        cases made
        exact ⟨found, .refl fs, fun _ => .inl rfl⟩
      · cases made
      next missing =>
        obtain ⟨upper, first, last⟩ := Option.bind_eq_some_iff.mp made
        obtain ⟨_, more, changes⟩ := ih first
        obtain ⟨_, free, lookups⟩ := mkdir_eq_some last
        refine ⟨?_, ?_, ?_⟩
        · rw [lookups, if_pos rfl]
        · intro q node found
          have other : q ≠ name :: p := by
            rintro rfl
            cases missing.symm.trans found
          rw [lookups, if_neg other]
          exact more q node found
        · intro q
          by_cases here : q = name :: p
          · rw [lookups, if_pos here, here]
            exact .inr ⟨rfl, List.suffix_rfl⟩
          · rw [lookups, if_neg here]
            rcases changes q with same | ⟨new, upper⟩
            · exact .inl same
            · exact .inr ⟨new, upper.trans (List.suffix_cons name p)⟩

theorem blocked_eq_false_iff {fs : FileSystem N α} {p : Location N} :
    fs.blocked p = false ↔
      ∀ q content, q <:+ p → q ≠ p → fs.lookup q ≠ some (.file content) := by
  induction p with
  | nil => exact ⟨fun _ q _ above other => absurd (List.suffix_nil.mp above) other, fun _ => rfl⟩
  | cons name p ih =>
      have upper := List.suffix_cons name p
      have proper : ∀ {q}, q <:+ p → q ≠ name :: p := by
        rintro q above rfl
        have short := above.length_le
        rw [List.length_cons] at short
        omega
      rw [blocked]
      constructor
      · intro opened q content above other file
        rcases List.suffix_cons_iff.mp above with same | ⟨t, way⟩
        · exact other same
        · cases t with
          | nil =>
              rw [← way, List.nil_append, file] at opened
              cases opened
          | cons leaf t =>
              have missing : fs.lookup p = none := by
                rw [← way]
                exact lookup_below_file file (List.cons_ne_nil leaf t)
              rw [missing] at opened
              refine ih.mp opened q content ⟨leaf :: t, way⟩ ?_ file
              rintro rfl
              have lengths := congrArg List.length way
              rw [List.length_append, List.length_cons] at lengths
              omega
      · intro opened
        split
        · rfl
        next content file =>
          exact absurd file (opened p content upper (proper List.suffix_rfl))
        · exact ih.mpr fun q content above _ =>
            opened q content (above.trans upper) (proper above)

/-- A location that is missing, with no file above it, can be made. -/
theorem mkdirAll_isSome {fs : FileSystem N α} {p : Location N}
    (free : ∀ content, fs.lookup p ≠ some (.file content)) (open_above : fs.blocked p = false) :
    ∃ fs', fs.mkdirAll p = some fs' := by
  induction p with
  | nil => exact ⟨fs, rfl⟩
  | cons name p ih =>
      rw [mkdirAll]
      cases found : fs.lookup (name :: p) with
      | some node =>
          cases node with
          | directory => exact ⟨fs, rfl⟩
          | file content => exact absurd found (free content)
      | none =>
          rw [blocked] at open_above
          have upper : ∃ fs', fs.mkdirAll p = some fs' := by
            cases parent : fs.lookup p with
            | none =>
                rw [parent] at open_above
                exact ih (fun content file => nomatch parent.symm.trans file) open_above
            | some node =>
                rw [parent] at open_above
                cases node with
                | directory =>
                    cases p with
                    | nil => exact ⟨fs, rfl⟩
                    | cons other p =>
                        rw [mkdirAll, parent]
                        exact ⟨fs, rfl⟩
                | file content => cases open_above
          obtain ⟨fs', made⟩ := upper
          obtain ⟨directory, _, changes⟩ := mkdirAll_eq_some made
          have still : fs'.lookup (name :: p) = none := by
            rcases changes (name :: p) with same | ⟨_, shorter⟩
            · rw [same, found]
            · exact absurd shorter.length_le (by simp)
          dsimp only
          rw [made, Option.bind_some, mkdir, dif_pos ⟨directory, still⟩]
          exact ⟨_, rfl⟩

end FileSystem

end DseFmi.Library
