import DseFmi.Operations.ZipEntries

/-!
# Unpacking to files

The calls that unpack an entry are a making of directories and a writing of a file, at the
location that the names of the entry have below the destination.
-/

namespace DseFmi.Operations

open DseFmi.Library FileSystem

variable {Content : Type} [Inhabited Content]

def outcome (fs : FileSystem Name Content) (result : Option (FileSystem Name Content)) :
    Bool × FileSystem Name Content :=
  match result with
  | some fs => (true, fs)
  | none => (false, fs)

/-- The files as they answer the calls of the operating system. -/
def fileCalls (cwd : WorkingDirectory) : OperatingSystem Content (FileSystem Name Content) where
  stat fs path := (stat cwd fs path).map Node.isDir
  mkdir fs path := outcome fs (fs.mkdir (locate cwd path))
  openFile fs path := outcome fs (fs.write default (locate cwd path))
  copy fs file path := outcome fs (fs.write file.content (locate cwd path))

variable {cwd : WorkingDirectory}

omit [Inhabited Content] in
theorem stat_rooted {path : String} (rooted : isRooted path = true)
    (fs : FileSystem Name Content) : stat cwd fs path = fs.lookup (locate cwd path) := by
  have nonempty : path ≠ "" := by
    rintro rfl
    exact absurd rooted (by decide)
  rw [stat, if_neg nonempty]

theorem elements_of_rooted (cwd : WorkingDirectory) {path : String}
    (rooted : isRooted path = true) :
    (parsePath path).elements.reverse = (locate cwd path).map Subtype.val := by
  rw [map_locate, absPath, if_pos rooted, parsePath_cleanPath]

theorem parsePath_dirPath_cleaned {path : String} (rooted : isRooted path = true)
    (cleaned : cleanPath path = path) :
    parsePath (dirPath path) = ⟨true, (parsePath path).elements.dropLast⟩ := by
  have clean := clean_parsePath path
  have whole : (⟨isRooted path, (parsePath path).elements⟩ : LexPath) = parsePath path := rfl
  rw [rooted] at clean whole
  have upper := parsePath_dirPath clean
  rw [whole, show (parsePath path).text = path from cleaned] at upper
  exact upper

/-- The directory of a clean path is above its location. -/
theorem locate_dirPath (cwd : WorkingDirectory) {path : String} (rooted : isRooted path = true)
    (cleaned : cleanPath path = path) :
    isRooted (dirPath path) = true ∧ locate cwd (dirPath path) = (locate cwd path).tail := by
  have upper := parsePath_dirPath_cleaned rooted cleaned
  have still : isRooted (dirPath path) = true := by
    rw [← rooted_parsePath, upper]
  refine ⟨still, locate_eq ?_⟩
  rw [absPath, if_pos still, parsePath_cleanPath, upper, List.map_tail,
    ← elements_of_rooted cwd rooted, List.tail_reverse]

theorem isRooted_pathOf (elements : List String) : isRooted (pathOf elements) = true := by
  rw [pathOf, LexPath.text, if_pos rfl]
  exact isRooted_rooted _

theorem clean_map_val (l : Location Name) : Clean true (l.map Subtype.val).reverse :=
  clean_of_names fun e member => isName_of_mem_map e (List.mem_reverse.mp member)

theorem locate_pathOf (l : Location Name) : locate cwd (pathOf (l.map Subtype.val)) = l := by
  apply locate_eq
  rw [absPath, if_pos (isRooted_pathOf _), parsePath_cleanPath, pathOf,
    parsePath_text (q := ⟨true, (l.map Subtype.val).reverse⟩) (clean_map_val l),
    List.reverse_reverse]

theorem exec_call_ok {World : Type} {touched : List Touch} {f : World → Bool × World}
    {m : Machine World} {world : World} (succeeds : f m.world = (true, world)) :
    Effect.exec (call touched f) m = (.ok (), ⟨world, m.touched ++ touched⟩) := by
  rw [call, Effect.exec_of]
  dsimp only
  rw [succeeds]
  rfl

theorem stat_pathOf (cwd : WorkingDirectory) (fs : FileSystem Name Content) (l : Location Name) :
    (fileCalls cwd).stat fs (pathOf (l.map Subtype.val)) = (fs.lookup l).map Node.isDir := by
  rw [fileCalls]
  dsimp only
  rw [stat_rooted (isRooted_pathOf _), locate_pathOf]

theorem exec_mkdir_pathOf {m : Machine (FileSystem Name Content)} {fs : FileSystem Name Content}
    {name : Name} {l : Location Name} (made : m.world.mkdir (name :: l) = some fs) :
    ∃ touched',
      Effect.exec (mkdir (fileCalls cwd) (pathOf (name.val :: l.map Subtype.val)) none) m =
        (.ok (), ⟨fs, touched'⟩) := by
  have possible : (fileCalls cwd).mkdir m.world (pathOf (name.val :: l.map Subtype.val)) =
      (true, fs) := by
    rw [fileCalls]
    dsimp only
    rw [show name.val :: l.map Subtype.val = (name :: l).map Subtype.val from rfl, locate_pathOf,
      made]
    rfl
  refine ⟨_, exec_call_ok ?_⟩
  dsimp only
  rw [possible]
  rfl

theorem exec_mkdirAllOf {fs fs' : FileSystem Name Content} {l : Location Name}
    (made : fs.mkdirAll l = some fs') (touched : List Touch) :
    ∃ touched', Effect.exec (mkdirAllOf (fileCalls cwd) (l.map Subtype.val)) ⟨fs, touched⟩ =
      (.ok (), ⟨fs', touched'⟩) := by
  induction l generalizing fs' with
  | nil =>
      cases made
      have there := stat_pathOf cwd fs []
      rw [lookup_root, List.map_nil] at there
      rw [List.map_nil, mkdirAllOf, Effect.exec_bind_ok (Effect.exec_get _)]
      dsimp only
      rw [there]
      exact ⟨touched, rfl⟩
  | cons name l ih =>
      have there := stat_pathOf cwd fs (name :: l)
      rw [List.map_cons] at there
      rw [List.map_cons, mkdirAllOf, Effect.exec_bind_ok (Effect.exec_get _)]
      dsimp only
      rw [there]
      rw [FileSystem.mkdirAll] at made
      split at made
      next found =>
        cases made
        rw [found]
        exact ⟨touched, rfl⟩
      · cases made
      next missing =>
        obtain ⟨upper, first, last⟩ := Option.bind_eq_some_iff.mp made
        rw [missing, Option.map_none]
        dsimp only
        by_cases top : l = []
        · rw [if_neg (not_not_intro (List.map_eq_nil_iff.mpr top))]
          rw [top] at first
          cases first
          exact exec_mkdir_pathOf last
        · rw [if_pos fun none => top (List.map_eq_nil_iff.mp none)]
          obtain ⟨touched', ran⟩ := ih first
          rw [Effect.exec_bind_ok ran]
          exact exec_mkdir_pathOf last

variable {destAbs : String} {names : List Name}

theorem entryPath_zipFile (destAbs : String) (below : names ≠ []) (node : Node Content) :
    entryPath destAbs (zipFile (relName names) node).name = joinPath [destAbs, relName names] := by
  have some := map_val_ne_nil below
  rw [entryPath]
  cases node with
  | directory => rw [zipFile, relName, cleanPath_joinParts_slash some isName_of_mem_map]
  | file content => rw [zipFile, relName, cleanPath_joinParts some isName_of_mem_map]

theorem leaves_joinPath (rooted : isRooted destAbs = true) (below : names ≠ []) :
    leaves (relPath destAbs (joinPath [destAbs, relName names])) = false := by
  have some := map_val_ne_nil below
  have joined := parsePath_joinPath_names rooted some isName_of_mem_map
  rw [← rooted] at joined
  rw [relName, relPath_below some joined, leaves]
  apply decide_eq_false
  apply not_climbs_joinParts some fun e member => (isName_of_mem_map e member).plain
  exact fun member => (isName_of_mem_map ".." member).parent rfl

variable {fs : FileSystem Name Content}

theorem exec_unzipFile_directory (rooted : isRooted destAbs = true) (below : names ≠ [])
    {fs' : FileSystem Name Content}
    (made : fs.mkdirAll (names.reverse ++ locate cwd destAbs) = some fs')
    (touched : List Touch) :
    ∃ touched', Effect.exec (unzipFile (fileCalls cwd) destAbs (zipFile (relName names) .directory))
      ⟨fs, touched⟩ = (.ok (), ⟨fs', touched'⟩) := by
  have path := entryPath_zipFile destAbs below (Node.directory (α := Content))
  rw [unzipFile, path, leaves_joinPath rooted below]
  rw [← locate_rooted rooted below] at made
  have elements := elements_of_rooted cwd (isRooted_joinPath rooted (relName names))
  obtain ⟨touched', ran⟩ := exec_mkdirAllOf made touched
  rw [← elements] at ran
  exact ⟨touched', ran⟩

theorem exec_unzipFile_file (rooted : isRooted destAbs = true) {leaf : Name} {upper : Location Name}
    (way : names.reverse = leaf :: upper) {content : Content}
    {made opened written : FileSystem Name Content}
    (make : fs.mkdirAll (upper ++ locate cwd destAbs) = some made)
    (create : made.write default (leaf :: upper ++ locate cwd destAbs) = some opened)
    (write : opened.write content (leaf :: upper ++ locate cwd destAbs) = some written)
    (touched : List Touch) :
    ∃ touched', Effect.exec (unzipFile (fileCalls cwd) destAbs
      (zipFile (relName names) (.file content))) ⟨fs, touched⟩ = (.ok (), ⟨written, touched'⟩) := by
  have below : names ≠ [] := by
    rintro rfl
    cases way
  have path := entryPath_zipFile destAbs below (Node.file content)
  have whole := isRooted_joinPath rooted (relName names)
  have place : locate cwd (joinPath [destAbs, relName names]) =
      leaf :: upper ++ locate cwd destAbs := by
    rw [locate_rooted rooted below, way]
  have cleaned : cleanPath (joinPath [destAbs, relName names]) =
      joinPath [destAbs, relName names] := by
    obtain ⟨q, joined⟩ := joinPath_rooted rooted (relName names)
    rw [joined, cleanPath, parsePath_cleanPath, cleanPath]
  obtain ⟨still, directory⟩ := locate_dirPath cwd whole cleaned
  rw [place, List.cons_append, List.tail_cons] at directory
  rw [← directory] at make
  obtain ⟨touched', first⟩ := exec_mkdirAllOf make touched
  rw [← elements_of_rooted cwd still] at first
  have second : ((fileCalls cwd).openFile made (joinPath [destAbs, relName names])) =
      (true, opened) := by
    rw [fileCalls]
    dsimp only
    rw [place, create]
    rfl
  have third : (fileCalls cwd).copy opened (zipFile (relName names) (.file content))
      (joinPath [destAbs, relName names]) = (true, written) := by
    rw [fileCalls]
    dsimp only
    rw [place, zipFile, write]
    rfl
  rw [unzipFile, path, leaves_joinPath rooted below]
  generalize joinPath [destAbs, relName names] = p at first second third ⊢
  have opening : Effect.exec (call [.opened p] fun world => (fileCalls cwd).openFile world p)
      ⟨made, touched'⟩ = (.ok (), ⟨opened, touched' ++ [.opened p]⟩) := exec_call_ok second
  have copying : Effect.exec (call [] fun world =>
      (fileCalls cwd).copy world (zipFile (relName names) (.file content)) p)
      ⟨opened, touched' ++ [.opened p]⟩ =
        (.ok (), ⟨written, touched' ++ [.opened p] ++ []⟩) := exec_call_ok third
  exact ⟨_, (Effect.exec_bind_ok first).trans ((Effect.exec_bind_ok opening).trans copying)⟩

end DseFmi.Operations
