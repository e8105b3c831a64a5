import DseFmi.Operations.Unzip

/-!
# Unpacking stays inside its destination

An entry that leads out of the destination is rejected before anything is done for it, and
every other entry is unpacked at or below the destination.
-/

namespace DseFmi.Operations

open DseFmi.Library

variable {Content World : Type}

/-- A path that is a directory or stands, by its elements, below it. -/
def Inside (base path : String) : Prop :=
  (parsePath path).rooted = true ∧ (parsePath base).elements <+: (parsePath path).elements

instance (base path : String) : Decidable (Inside base path) :=
  inferInstanceAs (Decidable (_ ∧ _))

def Above (base path : String) : Prop :=
  (parsePath path).rooted = true ∧ (parsePath path).elements <+: (parsePath base).elements

/-- What may be touched: what is inside the destination, and directories above it that are
missing. -/
def Touch.Allowed (destAbs : String) : Touch → Prop
  | .created path found => Inside destAbs path ∨ Above destAbs path ∧ found = none
  | .opened path => Inside destAbs path

def AllAllowed (destAbs : String) (m : Machine World) : Prop :=
  ∀ t ∈ m.touched, t.Allowed destAbs

/-- An entry whose cleaned path stays in the destination. -/
def Stays (destAbs : String) (name : String) : Prop := Inside destAbs (entryPath destAbs name)

section Calls

variable {os : OperatingSystem Content World} {destAbs : String}

theorem keeps_call {touched : List Touch} {outcome : World → Bool × World}
    (allowed : ∀ t ∈ touched, t.Allowed destAbs) :
    Effect.Keeps (AllAllowed destAbs) (call touched outcome) := by
  intro m holds t member
  rcases List.mem_append.mp member with old | new
  · exact holds t old
  · exact allowed t new

theorem parsePath_pathOf {elements : List String} (clean : Clean true elements.reverse) :
    parsePath (pathOf elements) = ⟨true, elements.reverse⟩ :=
  parsePath_text clean

/-- A directory whose elements are comparable with those of the destination may be created. -/
theorem allowed_created {elements : List String} (clean : Clean true elements.reverse)
    (comparable : (parsePath destAbs).elements <+: elements.reverse ∨
      elements.reverse <+: (parsePath destAbs).elements) :
    (Touch.created (pathOf elements) none).Allowed destAbs := by
  have parsed := parsePath_pathOf clean
  rcases comparable with below | above
  · exact .inl ⟨by rw [parsed], by rw [parsed]; exact below⟩
  · exact .inr ⟨⟨by rw [parsed], by rw [parsed]; exact above⟩, rfl⟩

theorem keeps_mkdir {path : String} {found : Option Bool}
    (allowed : (Touch.created path found).Allowed destAbs) :
    Effect.Keeps (AllAllowed destAbs) (mkdir os path found) := by
  apply keeps_call
  intro t member
  rw [List.mem_singleton.mp member]
  exact allowed

/-- The directories above a path are comparable with the destination when the path is. -/
theorem comparable_upper {ds elements : List String} {e : String}
    (comparable : ds <+: elements ++ [e] ∨ elements ++ [e] <+: ds) :
    ds <+: elements ∨ elements <+: ds := by
  rcases comparable with below | above
  · rcases List.prefix_concat_iff.mp below with rfl | upper
    · exact .inr (List.prefix_append elements [e])
    · exact .inl upper
  · exact .inr ((List.prefix_append elements [e]).trans above)

theorem keeps_mkdirAllOf {elements : List String} (clean : Clean true elements.reverse)
    (comparable : (parsePath destAbs).elements <+: elements.reverse ∨
      elements.reverse <+: (parsePath destAbs).elements) :
    Effect.Keeps (AllAllowed destAbs) (mkdirAllOf os elements) := by
  induction elements with
  | nil =>
      rw [mkdirAllOf]
      refine Effect.Keeps.bind Effect.Keeps.get fun m => ?_
      split
      · exact Effect.Keeps.pure _
      · exact Effect.Keeps.throw _
      · exact keeps_mkdir (allowed_created clean comparable)
  | cons e elements ih =>
      have created := allowed_created clean comparable
      rw [List.reverse_cons] at clean comparable
      rw [mkdirAllOf]
      refine Effect.Keeps.bind Effect.Keeps.get fun m => ?_
      dsimp only
      split
      · exact Effect.Keeps.pure _
      · exact Effect.Keeps.throw _
      · have upper := ih clean.upper (comparable_upper comparable)
        split
        · exact upper.bind fun _ => keeps_mkdir created
        · exact keeps_mkdir created

theorem keeps_mkdirAll {path : String} (rooted : (parsePath path).rooted = true)
    (comparable : (parsePath destAbs).elements <+: (parsePath path).elements ∨
      (parsePath path).elements <+: (parsePath destAbs).elements) :
    Effect.Keeps (AllAllowed destAbs) (mkdirAll os path) := by
  have clean := clean_parsePath path
  rw [show isRooted path = true from rooted] at clean
  rw [← List.reverse_reverse (parsePath path).elements] at clean comparable
  exact keeps_mkdirAllOf clean comparable

end Calls

section Entries

variable {os : OperatingSystem Content World} {destAbs name : String}

theorem isRooted_entryPath (rooted : isRooted destAbs = true) (name : String) :
    isRooted (entryPath destAbs name) = true := isRooted_joinPath rooted _

theorem leaves_iff (rooted : isRooted destAbs = true) :
    leaves (relPath destAbs (entryPath destAbs name)) = true ↔ ¬ Stays destAbs name := by
  have entryRooted := isRooted_entryPath rooted name
  have baseRooted : (parsePath destAbs).rooted = true := rooted
  obtain ⟨rel, found, climbs⟩ := relPath_rooted baseRooted entryRooted
  rw [found, leaves, decide_eq_true_iff, climbs, Stays, Inside]
  exact not_congr (and_iff_right entryRooted).symm

theorem unzipFile_leaves (rooted : isRooted destAbs = true) {file : ZipFile Content}
    (outside : ¬ Stays destAbs file.name) :
    unzipFile os destAbs file = throw (.illegalFilePath file.name) := by
  rw [unzipFile, if_pos ((leaves_iff rooted).mpr outside)]

/-- The path of an entry is clean, and its directory has its elements but for the last one. -/
theorem parsePath_dirPath_entryPath (rooted : isRooted destAbs = true) (name : String) :
    parsePath (dirPath (entryPath destAbs name)) =
      ⟨true, (parsePath (entryPath destAbs name)).elements.dropLast⟩ := by
  have entryRooted := isRooted_entryPath rooted name
  obtain ⟨q, joined⟩ := joinPath_rooted rooted (cleanPath name)
  have same : entryPath destAbs name = (parsePath (destAbs ++ q)).text := joined
  have parsed : parsePath (entryPath destAbs name) = parsePath (destAbs ++ q) := by
    rw [same]
    exact parsePath_cleanPath _
  have clean := clean_parsePath (destAbs ++ q)
  rw [isRooted_append rooted] at clean
  have path : parsePath (destAbs ++ q) = ⟨true, (parsePath (destAbs ++ q)).elements⟩ := by
    rw [← show (parsePath (destAbs ++ q)).rooted = true from isRooted_append rooted q]
  rw [parsed, same, path]
  exact parsePath_dirPath clean

theorem keeps_unzipFile (rooted : isRooted destAbs = true) (file : ZipFile Content) :
    Effect.Keeps (AllAllowed destAbs) (unzipFile os destAbs file) := by
  by_cases stays : Stays destAbs file.name
  · have accepted : ¬ leaves (relPath destAbs (entryPath destAbs file.name)) = true :=
      fun outside => (leaves_iff rooted).mp outside stays
    have directory := parsePath_dirPath_entryPath rooted file.name
    rw [unzipFile, if_neg accepted]
    split
    · exact keeps_mkdirAll stays.1 (.inl stays.2)
    · refine (keeps_mkdirAll ?_ ?_).bind fun _ => (keeps_call ?_).bind fun _ => keeps_call ?_
      · rw [directory]
      · rw [directory]
        exact List.prefix_or_prefix_of_prefix stays.2 (List.dropLast_prefix _)
      · intro t member
        rw [List.mem_singleton.mp member]
        exact stays
      · exact fun _ member => absurd member List.not_mem_nil
  · rw [unzipFile_leaves rooted stays]
    exact Effect.Keeps.throw _

end Entries

theorem isRooted_absDest {cwd : Option WorkingDirectory} {dest destAbs : String}
    (found : absDest cwd dest = some destAbs) : isRooted destAbs = true := by
  rw [absDest] at found
  split at found
  next rooted =>
    cases found
    rw [isRooted_cleanPath]
    exact rooted
  · obtain ⟨directory, _, rfl⟩ := Option.map_eq_some_iff.mp found
    exact isRooted_joinPath directory.rooted dest

/-- Whatever the operating system answers, only paths inside the destination are created or
opened, apart from missing directories above it; the first entry that leads out of the
destination ends the run with an error, and nothing is done for it or for a later one. -/
theorem unzip_inside (os : OperatingSystem Content World) (cwd : Option WorkingDirectory)
    (dest : String) (archive : Option (List (ZipFile Content))) (world : World) :
    (∀ t ∈ (Effect.exec (unzip os cwd dest archive) ⟨world, []⟩).2.touched,
      ∃ destAbs, absDest cwd dest = some destAbs ∧ t.Allowed destAbs) ∧
    ∀ destAbs before file after, absDest cwd dest = some destAbs →
      archive = some (before ++ file :: after) →
      (∀ other ∈ before, Stays destAbs other.name) → ¬ Stays destAbs file.name →
      Effect.exec (unzip os cwd dest archive) ⟨world, []⟩ =
        match Effect.exec (unzip os cwd dest (some before)) ⟨world, []⟩ with
        | (.ok _, m) => (.error (.illegalFilePath file.name), m)
        | (.error e, m) => (.error e, m) := by
  refine ⟨?_, ?_⟩
  · intro t member
    cases archive with
    | none => exact absurd member List.not_mem_nil
    | some files =>
        cases found : absDest cwd dest with
        | none =>
            rw [unzip, found] at member
            exact absurd member List.not_mem_nil
        | some destAbs =>
            rw [unzip, found] at member
            have keeps : Effect.Keeps (AllAllowed destAbs) (forM files (unzipFile os destAbs)) :=
              Effect.Keeps.forM fun file _ => keeps_unzipFile (isRooted_absDest found) file
            have start : AllAllowed destAbs (⟨world, []⟩ : Machine World) :=
              fun _ none => absurd none List.not_mem_nil
            exact ⟨destAbs, rfl, keeps _ start t member⟩
  · rintro destAbs before file after found rfl _ outside
    rw [unzip, unzip, found]
    dsimp only
    rw [Effect.exec_forM_throw (unzipFile_leaves (isRooted_absDest found) outside)]
    rcases Effect.exec (forM before (unzipFile os destAbs)) ⟨world, []⟩ with ⟨result, m⟩
    cases result with
    | ok _ => rfl
    | error e => rfl

/-- An operating system on which every call succeeds. -/
def willing : OperatingSystem Unit Unit where
  stat _ _ := none
  mkdir _ _ := (true, ())
  openFile _ _ := (true, ())
  copy _ _ _ := (true, ())

theorem unzip_inside_parent :
    let files : List (ZipFile Unit) := [⟨"../b", false, ()⟩, ⟨"a", false, ()⟩]
    Effect.exec (unzip willing none "/out" (some files)) ⟨(), []⟩ =
      (.error (.illegalFilePath "../b"), ⟨(), []⟩) := by
  intro files
  have found : absDest none "/out" = some "/out" := by decide
  have outside : ¬ Stays "/out" "../b" := by
    rw [Stays]
    decide
  obtain ⟨_, ends⟩ := unzip_inside willing none "/out" (some files) ()
  have stopped := ends "/out" [] ⟨"../b", false, ()⟩ [⟨"a", false, ()⟩] found rfl
    (fun _ none => absurd none List.not_mem_nil) outside
  rw [stopped, unzip, found]
  rfl

end DseFmi.Operations
