import DseFmi.Library.Success
import DseFmi.Operations.Zip

/-!
# The entries of an archive

The walk visits each node at and below its root once. What becomes an entry is every node but
the root whose last name is not that of the root.
-/

namespace DseFmi.Operations

open DseFmi.Library FileSystem

/-- The path that the walk reaches with some names. -/
def pathBelow (path : String) (names : List Name) : String :=
  names.foldl (fun path name => joinPath [path, name.val]) path

theorem parsePath_pathBelow (path : String) (names : List Name) :
    parsePath (pathBelow path names) =
      ⟨isRooted path, (parsePath path).elements ++ names.map Subtype.val⟩ := by
  induction names generalizing path with
  | nil =>
      rw [List.map_nil, List.append_nil]
      rfl
  | cons name names ih =>
      have joined := parsePath_joinPath_name path name.property
      rw [pathBelow, List.foldl_cons]
      refine (ih (joinPath [path, name.val])).trans ?_
      rw [show isRooted (joinPath [path, name.val]) = isRooted path from
        congrArg LexPath.rooted joined, joined, List.append_assoc]
      rfl

theorem basePath_pathBelow (path : String) (names : List Name) (name : Name) :
    basePath (pathBelow path (names ++ [name])) = name.val := by
  rw [pathBelow, List.foldl_append]
  exact basePath_joinPath_name _ name.property

theorem relPath_pathBelow (path : String) {names : List Name} (below : names ≠ []) :
    relPath path (pathBelow path names) = some (relName names) :=
  relPath_below (map_val_ne_nil below) (parsePath_pathBelow path names)

/-- The names are read back from the name of an entry. -/
theorem elements_zipFile {Content : Type} [Inhabited Content] {names : List Name}
    (below : names ≠ []) (node : Node Content) :
    (parsePath (zipFile (relName names) node).name).elements = names.map Subtype.val := by
  have some := map_val_ne_nil below
  have text : LexPath.text ⟨false, names.map Subtype.val⟩ = relName names := by
    rw [LexPath.text, if_neg Bool.false_ne_true, if_neg some, relName]
  have parsed : parsePath (relName names) = ⟨false, names.map Subtype.val⟩ := by
    rw [← text]
    exact parsePath_text (clean_of_names isName_of_mem_map)
  cases node with
  | directory =>
      have slash := parsePath_slash (joinParts_ne_empty some isName_of_mem_map)
      exact congrArg LexPath.elements (slash.trans parsed)
  | file content => exact congrArg LexPath.elements parsed

variable {Content : Type} {cwd : WorkingDirectory} {fs : FileSystem Name Content}

theorem walk_eq {bound : Nat} {path : String}
    (there : (fs.lookup (locate cwd path)).isSome = true)
    (shallow : fs.Shallow bound (locate cwd path)) :
    walk cwd fs bound path = (fs.below bound (locate cwd path)).map fun item =>
      (pathBelow path item.1, some item.2) := by
  induction bound generalizing path with
  | zero => exact absurd (shallow [] there) (Nat.not_lt_zero _)
  | succ bound ih =>
      rw [walk, below]
      cases here : fs.lookup (locate cwd path) with
      | none =>
          rw [here] at there
          cases there
      | some node =>
          cases node with
          | file content => rfl
          | directory =>
              dsimp only
              rw [List.map_cons, List.map_flatMap]
              congr 1
              apply List.flatMap_congr
              intro name listed
              have joined := locate_joinPath cwd path name
              have found : (fs.lookup (locate cwd (joinPath [path, name.val]))).isSome = true := by
                rw [joined]
                exact mem_readDir.mp listed
              have deep : fs.Shallow bound (locate cwd (joinPath [path, name.val])) := by
                rw [joined]
                exact shallow.entry name
              rw [ih found deep, joined, List.map_map]
              rfl

/-- Whether a node becomes an entry: it is not the root and is not named like it. -/
def Packed (baseDir : String) (names : List Name) : Prop :=
  ∃ name ∈ names.getLast?, name.val ≠ baseDir

instance (baseDir : String) (names : List Name) : Decidable (Packed baseDir names) :=
  inferInstanceAs (Decidable (∃ name ∈ names.getLast?, name.val ≠ baseDir))

theorem Packed.ne_nil {baseDir : String} {names : List Name} (packed : Packed baseDir names) :
    names ≠ [] := by
  rintro rfl
  obtain ⟨name, last, _⟩ := packed
  cases last

theorem packed_concat {base : String} {names : List Name} {name : Name} :
    Packed base (names ++ [name]) ↔ name.val ≠ base := by
  rw [Packed, List.getLast?_concat]
  constructor
  · rintro ⟨_, ⟨⟩, other⟩
    exact other
  · exact fun other => ⟨name, rfl, other⟩

variable [Inhabited Content]

theorem zipVisit_eq {source baseDir : String} (base : baseDir = basePath source)
    (names : List Name) (node : Node Content) :
    zipVisit source baseDir (pathBelow source names, some node) =
      .ok (if Packed baseDir names then [zipFile (relName names) node] else []) := by
  rw [zipVisit]
  dsimp only
  cases names using List.reverseRecOn with
  | nil =>
      have root : ¬ Packed baseDir [] := fun packed => packed.ne_nil rfl
      have start : basePath (pathBelow source []) = baseDir := base.symm
      rw [if_pos start, if_neg root]
      rfl
  | append_singleton names name =>
      have named : headerName source baseDir (pathBelow source (names ++ [name])) =
          .ok (relName (names ++ [name])) := by
        rw [headerName, if_pos (base ▸ basePath_ne_empty source),
          relPath_pathBelow source (List.append_ne_nil_of_right_ne_nil names (by simp))]
        rfl
      rw [basePath_pathBelow]
      by_cases same : name.val = baseDir
      · rw [if_pos same, if_neg fun kept => packed_concat.mp kept same]
        rfl
      · rw [if_neg same, if_pos (packed_concat.mpr same), named]
        rfl

theorem mapM_zipVisit (source : String) (items : List (List Name × Node Content)) :
    (items.map fun item => (pathBelow source item.1, some item.2)).mapM
      (zipVisit source (basePath source)) = .ok (items.map fun item =>
        if Packed (basePath source) item.1 then [zipFile (relName item.1) item.2] else []) := by
  induction items with
  | nil => rfl
  | cons item items ih =>
      rw [List.map_cons, List.mapM_cons, zipVisit_eq rfl, ok_bind, ih]
      rfl

omit [Inhabited Content] in
theorem flatten_map_ite {α : Type} (keep : α → Prop) [DecidablePred keep] (f : α → ZipFile Content)
    (items : List α) :
    (items.map fun item => if keep item then [f item] else []).flatten =
      (items.filter (keep ·)).map f := by
  induction items with
  | nil => rfl
  | cons item items ih =>
      rw [List.map_cons, List.flatten_cons, ih]
      by_cases kept : keep item
      · rw [if_pos kept, List.filter_cons_of_pos (by simpa using kept)]
        rfl
      · rw [if_neg kept, List.filter_cons_of_neg (by simpa using kept)]
        rfl

/-- The entries of a directory: its nodes without those that are named like it. -/
theorem zipEntries_eq {source : String} (directory : stat cwd fs source = some .directory) :
    zipEntries cwd source fs =
      .ok (((fs.below fs.height (locate cwd source)).filter fun item =>
        Packed (basePath source) item.1).map fun item => zipFile (relName item.1) item.2) := by
  have found : (fs.lookup (locate cwd source)).isSome = true := by
    rw [stat] at directory
    split at directory
    · cases directory
    · rw [directory]
      rfl
  rw [zipEntries, directory]
  dsimp only
  rw [walk_eq found (shallow_height fs _), mapM_zipVisit]
  exact congrArg Except.ok (flatten_map_ite _ _ _)

end DseFmi.Operations
