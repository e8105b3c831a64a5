import DseFmi.Operations.CopyResult
import DseFmi.Operations.UnzipFiles

/-!
# Packing and unpacking

What is unpacked from an archive of nodes of a tree are these nodes and the directories above
them. A nested directory that is named like the source comes back with what is below it; a
nested file that is named like the source, or such a directory with nothing else below it,
is lost.
-/

namespace DseFmi.Operations

open DseFmi.Library FileSystem

variable {Content : Type} {cwd : WorkingDirectory} {fs world : FileSystem Name Content}
  {source dest : Location Name}

/-- Whether a location is that of a node or above it. -/
def Covered (items : List (List Name × Node Content)) (r : Location Name) : Prop :=
  r = [] ∨ ∃ item ∈ items, r <:+ item.1.reverse

theorem covered_concat {items : List (List Name × Node Content)}
    {item : List Name × Node Content} {r : Location Name} :
    Covered (items ++ [item]) r ↔ Covered items r ∨ r <:+ item.1.reverse := by
  rw [Covered, Covered]
  constructor
  · rintro (top | ⟨other, member, above⟩)
    · exact .inl (.inl top)
    · rcases List.mem_append.mp member with before | last
      · exact .inl (.inr ⟨other, before, above⟩)
      · exact .inr (List.mem_singleton.mp last ▸ above)
  · rintro ((top | ⟨other, member, above⟩) | above)
    · exact .inl top
    · exact .inr ⟨other, List.mem_append_left _ member, above⟩
    · exact .inr ⟨item, List.mem_append_right _ List.mem_cons_self, above⟩

/-- The part of a tree that is covered by some nodes is at the destination, and nothing
else. -/
structure Unpacked (fs : FileSystem Name Content) (source : Location Name)
    (world : FileSystem Name Content) (dest : Location Name)
    (items : List (List Name × Node Content)) : Prop where
  covered : ∀ r, Covered items r → world.lookup (r ++ dest) = fs.lookup (r ++ source)
  free : ∀ r, ¬ Covered items r → world.lookup (r ++ dest) = none

theorem unpacked_nil (top : fs.lookup source = some .directory)
    (directory : world.lookup dest = some .directory)
    (empty : ∀ r, r ≠ [] → world.lookup (r ++ dest) = none) :
    Unpacked fs source world dest [] := by
  constructor
  · rintro r (rfl | ⟨_, member, _⟩)
    · exact directory.trans top.symm
    · exact absurd member List.not_mem_nil
  · exact fun r outside => empty r fun root => outside (.inl root)

theorem Unpacked.mkdirAll {items : List (List Name × Node Content)}
    (unpacked : Unpacked fs source world dest items) {upper : Location Name}
    (directories : ∀ r, r <:+ upper → fs.lookup (r ++ source) = some .directory) :
    ∃ made, world.mkdirAll (upper ++ dest) = some made ∧
      ∀ r, (r <:+ upper → made.lookup (r ++ dest) = some .directory) ∧
        (¬ r <:+ upper → made.lookup (r ++ dest) = world.lookup (r ++ dest)) := by
  have noFile : ∀ r content, r <:+ upper → world.lookup (r ++ dest) ≠ some (.file content) := by
    intro r content above file
    by_cases reached : Covered items r
    · rw [unpacked.covered r reached, directories r above] at file
      cases file
    · rw [unpacked.free r reached] at file
      cases file
  have top : world.lookup dest = some .directory :=
    (unpacked.covered [] (.inl rfl)).trans (directories [] List.nil_suffix)
  have opened : world.blocked (upper ++ dest) = false := by
    apply blocked_eq_false_iff.mpr
    intro q content above _ file
    rcases List.suffix_or_suffix_of_suffix above (List.suffix_append upper dest) with
      ⟨r, same⟩ | ⟨r, same⟩
    · cases r with
      | nil =>
          rw [List.nil_append] at same
          rw [same, top] at file
          cases file
      | cons name r =>
          have directory := lookup_suffix (List.cons_ne_nil name r) (by rw [same, top]; rfl)
          cases directory.symm.trans file
    · rw [← same, List.suffix_append_self_iff] at above
      exact noFile r content above (same ▸ file)
  obtain ⟨made, possible⟩ := mkdirAll_isSome (noFile upper · List.suffix_rfl) opened
  obtain ⟨bottom, _, lookups⟩ := mkdirAll_eq_some possible
  refine ⟨made, possible, fun r => ⟨?_, ?_⟩⟩
  · rintro ⟨t, rfl⟩
    cases t with
    | nil => exact bottom
    | cons name t =>
        apply lookup_suffix (List.cons_ne_nil name t)
        rw [← List.append_assoc, bottom]
        rfl
  · intro other
    rcases lookups (r ++ dest) with same | ⟨_, above⟩
    · exact same
    · exact absurd (List.suffix_append_self_iff.mp above) other

/-- A directory with those above it extends what is covered. -/
theorem Unpacked.addDirectory {items : List (List Name × Node Content)}
    (unpacked : Unpacked fs source world dest items) {names : List Name}
    (directories : ∀ r, r <:+ names.reverse → fs.lookup (r ++ source) = some .directory) :
    ∃ made, world.mkdirAll (names.reverse ++ dest) = some made ∧
      Unpacked fs source made dest (items ++ [(names, .directory)]) := by
  obtain ⟨made, possible, lookups⟩ := unpacked.mkdirAll directories
  refine ⟨made, possible, ?_, ?_⟩
  · intro r reached
    by_cases upper : r <:+ names.reverse
    · rw [(lookups r).1 upper, directories r upper]
    · rw [(lookups r).2 upper]
      exact unpacked.covered r ((covered_concat.mp reached).resolve_right upper)
  · intro r outside
    rw [covered_concat, not_or] at outside
    rw [(lookups r).2 outside.2]
    exact unpacked.free r outside.1

/-- A file that is created and then written has its content, and nothing else changes. -/
theorem exists_written [Inhabited Content] {leaf : Name} {upper : Location Name}
    (parent : world.lookup upper = some .directory)
    (place : world.lookup (leaf :: upper) ≠ some .directory) (content : Content) :
    ∃ opened written, world.write default (leaf :: upper) = some opened ∧
      opened.write content (leaf :: upper) = some written ∧
      ∀ q, written.lookup q =
        if q = leaf :: upper then some (.file content) else world.lookup q := by
  obtain ⟨opened, create⟩ := write_isSome default parent place
  obtain ⟨_, _, created⟩ := write_eq_some create
  have parent' : opened.lookup upper = some .directory := by
    rw [created, if_neg (List.cons_ne_self _ _).symm]
    exact parent
  have place' : opened.lookup (leaf :: upper) ≠ some .directory := by
    rw [created, if_pos rfl]
    exact nofun
  obtain ⟨written, write⟩ := write_isSome content parent' place'
  obtain ⟨_, _, finals⟩ := write_eq_some write
  refine ⟨opened, written, create, write, fun q => ?_⟩
  rw [finals, created]
  split <;> rfl

theorem Unpacked.addFile [Inhabited Content] {items : List (List Name × Node Content)}
    (unpacked : Unpacked fs source world dest items) {names : List Name} {content : Content}
    {leaf : Name} {upper : Location Name} (way : names.reverse = leaf :: upper)
    (found : fs.lookup (leaf :: upper ++ source) = some (.file content))
    (directories : ∀ r, r <:+ upper → fs.lookup (r ++ source) = some .directory) :
    ∃ made opened written, world.mkdirAll (upper ++ dest) = some made ∧
      made.write default (leaf :: upper ++ dest) = some opened ∧
      opened.write content (leaf :: upper ++ dest) = some written ∧
      Unpacked fs source written dest (items ++ [(names, .file content)]) := by
  obtain ⟨made, possible, lookups⟩ := unpacked.mkdirAll directories
  have parent : made.lookup (upper ++ dest) = some .directory :=
    (lookups upper).1 List.suffix_rfl
  have leafOther : ¬ leaf :: upper <:+ upper := by
    intro long
    have lengths := long.length_le
    rw [List.length_cons] at lengths
    omega
  have place : made.lookup (leaf :: upper ++ dest) ≠ some .directory := by
    rw [(lookups (leaf :: upper)).2 leafOther]
    intro directory
    by_cases reached : Covered items (leaf :: upper)
    · rw [unpacked.covered _ reached, found] at directory
      cases directory
    · rw [unpacked.free _ reached] at directory
      cases directory
  obtain ⟨opened, written, create, write, finals⟩ := exists_written parent place content
  have same_iff : ∀ r, r ++ dest = leaf :: (upper ++ dest) ↔ r = leaf :: upper := by
    intro r
    rw [← List.cons_append, List.append_left_inj]
  refine ⟨made, opened, written, possible, create, write, ?_, ?_⟩
  · intro r reached
    by_cases here : r = leaf :: upper
    · rw [finals, if_pos ((same_iff r).mpr here), here, found]
    · rw [finals, if_neg fun same => here ((same_iff r).mp same)]
      by_cases higher : r <:+ upper
      · rw [(lookups r).1 higher, directories r higher]
      · rw [(lookups r).2 higher]
        apply unpacked.covered r
        refine (covered_concat.mp reached).resolve_right fun short => ?_
        rw [way] at short
        rcases List.suffix_cons_iff.mp short with same | suffix
        · exact here same
        · exact higher suffix
  · intro r outside
    rw [covered_concat, not_or, way] at outside
    have here : r ≠ leaf :: upper := fun same => outside.2 (same ▸ List.suffix_rfl)
    have higher : ¬ r <:+ upper := fun suffix =>
      outside.2 (suffix.trans (List.suffix_cons leaf upper))
    rw [finals, if_neg fun same => here ((same_iff r).mp same), (lookups r).2 higher]
    exact unpacked.free r outside.1

variable [Inhabited Content] {destAbs : String}

theorem Unpacked.unzipFile {items : List (List Name × Node Content)}
    (unpacked : Unpacked fs source world (locate cwd destAbs) items)
    (rooted : isRooted destAbs = true) {names : List Name} {node : Node Content}
    (below : names ≠ []) (found : fs.lookup (names.reverse ++ source) = some node)
    (touched : List Touch) :
    ∃ world' touched', Effect.exec
      (Operations.unzipFile (fileCalls cwd) destAbs (zipFile (relName names) node))
        ⟨world, touched⟩ = (.ok (), ⟨world', touched'⟩) ∧
      Unpacked fs source world' (locate cwd destAbs) (items ++ [(names, node)]) := by
  have above : ∀ {t r}, t ++ r = names.reverse → t ≠ [] →
      fs.lookup (r ++ source) = some .directory := by
    intro t r way proper
    apply lookup_suffix proper
    rw [← List.append_assoc, way, found]
    rfl
  cases node with
  | directory =>
      have directories : ∀ r, r <:+ names.reverse → fs.lookup (r ++ source) = some .directory := by
        rintro r ⟨t, way⟩
        cases t with
        | nil =>
            rw [show r = names.reverse from way]
            exact found
        | cons name t => exact above way (List.cons_ne_nil name t)
      obtain ⟨made, possible, extended⟩ := unpacked.addDirectory directories
      obtain ⟨touched', ran⟩ := exec_unzipFile_directory rooted below possible touched
      exact ⟨made, touched', ran, extended⟩
  | file content =>
      obtain ⟨leaf, upper, way⟩ := List.exists_cons_of_ne_nil
        fun none => below (List.reverse_eq_nil_iff.mp none)
      have directories : ∀ r, r <:+ upper → fs.lookup (r ++ source) = some .directory := by
        rintro r ⟨t, rfl⟩
        exact above (t := leaf :: t) way.symm (List.cons_ne_nil leaf t)
      rw [way] at found
      obtain ⟨made, opened, written, possible, create, write, extended⟩ :=
        unpacked.addFile way found directories
      obtain ⟨touched', ran⟩ := exec_unzipFile_file rooted way possible create write touched
      exact ⟨written, touched', ran, extended⟩

/-- Unpacking the entries of some nodes, one after the other. -/
theorem Unpacked.unzip {items more : List (List Name × Node Content)}
    (unpacked : Unpacked fs source world (locate cwd destAbs) items)
    (rooted : isRooted destAbs = true)
    (nodes : ∀ item ∈ more, item.1 ≠ [] ∧ fs.lookup (item.1.reverse ++ source) = some item.2)
    (touched : List Touch) :
    ∃ world' touched', Effect.exec
      (forM (more.map fun item => zipFile (relName item.1) item.2)
        (Operations.unzipFile (fileCalls cwd) destAbs)) ⟨world, touched⟩ =
          (.ok (), ⟨world', touched'⟩) ∧
      Unpacked fs source world' (locate cwd destAbs) (items ++ more) := by
  induction more generalizing items world touched with
  | nil =>
      refine ⟨world, touched, rfl, ?_⟩
      rw [List.append_nil]
      exact unpacked
  | cons item more ih =>
      obtain ⟨below, found⟩ := nodes item List.mem_cons_self
      obtain ⟨middle, touched₁, first, reached⟩ := unpacked.unzipFile rooted below found touched
      obtain ⟨last, touched₂, rest, final⟩ :=
        ih reached (fun other member => nodes other (List.mem_cons_of_mem item member)) touched₁
      rw [List.append_assoc] at final
      refine ⟨last, touched₂, ?_, final⟩
      rw [List.map_cons, List.forM_cons, Effect.exec_bind_ok first]
      exact rest

def openArchive (library : ZipLibrary Content) (cwd : WorkingDirectory)
    (fs : FileSystem Name Content) (filename : String) : Option (List (ZipFile Content)) :=
  match fs.lookup (locate cwd filename) with
  | some (.file content) => library.entries content
  | _ => none

def packedNodes (cwd : WorkingDirectory) (fs : FileSystem Name Content) (source : String) :
    List (List Name × Node Content) :=
  (fs.below fs.height (locate cwd source)).filter fun item => Packed (basePath source) item.1

omit [Inhabited Content] in
theorem mem_packedNodes {source : String} {names : List Name} {node : Node Content} :
    (names, node) ∈ packedNodes cwd fs source ↔
      fs.lookup (names.reverse ++ locate cwd source) = some node ∧
        Packed (basePath source) names := by
  rw [packedNodes, List.mem_filter, mem_below (shallow_height fs _), decide_eq_true_iff]

theorem nodup_packedNodes (cwd : WorkingDirectory) (fs : FileSystem Name Content)
    (source : String) :
    ((packedNodes cwd fs source).map fun item =>
      (zipFile (relName item.1) item.2).name).Nodup := by
  apply List.Nodup.of_map fun name => (parsePath name).elements
  have ways : ((packedNodes cwd fs source).map Prod.fst).Nodup :=
    (nodup_below fs fs.height (locate cwd source)).sublist (List.filter_sublist.map Prod.fst)
  have texts := ways.map (List.map_injective_iff.mpr Subtype.val_injective)
  rw [List.map_map] at texts ⊢
  have same : ∀ item ∈ packedNodes cwd fs source,
      (parsePath (zipFile (relName item.1) item.2).name).elements =
        item.1.map Subtype.val := by
    intro item member
    exact elements_zipFile (mem_packedNodes.mp member).2.ne_nil item.2
  rw [show (packedNodes cwd fs source).map ((fun name => (parsePath name).elements) ∘ fun item =>
    (zipFile (relName item.1) item.2).name) = _ from List.map_congr_left same]
  exact texts

/-- Packing a directory and unpacking the archive leave the tree of the directory at the
destination, and each entry of the archive has a name of its own. -/
def RoundTrips (library : ZipLibrary Content) (cwd : WorkingDirectory)
    (fs : FileSystem Name Content) (source filename dest : String) : Prop :=
  ∃ packed files machine,
    Effect.exec (zip library cwd source filename) fs = (.ok (), packed) ∧
    openArchive library cwd packed filename = some files ∧
    (files.map ZipFile.name).Nodup ∧
    Effect.exec (Operations.unzip (fileCalls cwd) (some cwd) dest
      (openArchive library cwd packed filename)) ⟨packed, []⟩ = (.ok (), machine) ∧
    ∀ r, machine.world.lookup (r ++ locate cwd dest) = fs.lookup (r ++ locate cwd source)

/-- A directory to pack, a place for the archive outside of it, and an empty directory to
unpack into. -/
structure PackingPlace (cwd : WorkingDirectory) (fs : FileSystem Name Content)
    (source filename dest : String) : Prop where
  directory : stat cwd fs source = some .directory
  creatable : (fs.write default (locate cwd filename)).isSome = true
  outside : ¬ locate cwd source <:+ locate cwd filename
  target : fs.lookup (locate cwd dest) = some .directory
  empty : ∀ r, r ≠ [] → fs.lookup (r ++ locate cwd dest) = none
  apart : ¬ locate cwd dest <:+ locate cwd filename

/-- Every nested node that is named like the source is a directory, and below it there is a
node that is named otherwise. -/
def Restorable (fs : FileSystem Name Content) (base : String) (source : Location Name) : Prop :=
  ∀ (name : Name) (r : Location Name) (node : Node Content), name.val = base →
    fs.lookup (name :: r ++ source) = some node →
    node = .directory ∧ ∃ (other : Name) (t : Location Name), other.val ≠ base ∧
      (fs.lookup (other :: t ++ name :: r ++ source)).isSome = true

omit [Inhabited Content] in
theorem absDest_eq (cwd : WorkingDirectory) (dest : String) :
    absDest (some cwd) dest = some (absPath cwd.path dest) := by
  rw [absDest, absPath]
  split <;> rfl

omit [Inhabited Content] in
theorem locate_absPath (cwd : WorkingDirectory) (p : String) :
    locate cwd (absPath cwd.path p) = locate cwd p := by
  apply locate_eq
  rw [map_locate, absPath.eq_def cwd.path (absPath cwd.path p), if_pos (isRooted_absPath cwd p),
    parsePath_cleanPath]

omit [Inhabited Content] in
/-- What is unpacked depends on the tree and the members of the list alone. -/
theorem Unpacked.congr {fs' : FileSystem Name Content}
    {items items' : List (List Name × Node Content)}
    (unpacked : Unpacked fs source world dest items)
    (same : ∀ r, fs.lookup (r ++ source) = fs'.lookup (r ++ source))
    (members : ∀ item, item ∈ items ↔ item ∈ items') : Unpacked fs' source world dest items' := by
  have covers : ∀ r, Covered items r ↔ Covered items' r := by
    intro r
    simp only [Covered, members]
  constructor
  · intro r reached
    rw [unpacked.covered r ((covers r).mpr reached), same]
  · exact fun r outside => unpacked.free r fun reached => outside ((covers r).mp reached)

/-- Packing a directory changes the archive alone. -/
theorem exec_zip (library : ZipLibrary Content) {source filename : String}
    {created : FileSystem Name Content}
    (create : fs.write default (locate cwd filename) = some created)
    (directory : stat cwd created source = some .directory) :
    ∃ packed, Effect.exec (zip library cwd source filename) fs = (.ok (), packed) ∧
      openArchive library cwd packed filename = some ((packedNodes cwd created source).map
        fun item => zipFile (relName item.1) item.2) ∧
      ∀ q, q ≠ locate cwd filename → packed.lookup q = fs.lookup q := by
  obtain ⟨leaf, upper, here⟩ : ∃ leaf upper, locate cwd filename = leaf :: upper := by
    apply List.exists_cons_of_ne_nil
    intro root
    rw [root] at create
    cases create
  rw [here] at create
  obtain ⟨parent, _, creates⟩ := write_eq_some create
  have still : created.lookup upper = some .directory := by
    rw [creates, if_neg (List.cons_ne_self leaf upper).symm]
    exact parent
  have free : created.lookup (leaf :: upper) ≠ some .directory := by
    rw [creates, if_pos rfl]
    exact nofun
  have entries := zipEntries_eq directory
  rw [← packedNodes] at entries
  generalize (packedNodes cwd created source).map
    (fun item => zipFile (relName item.1) item.2) = files at entries ⊢
  obtain ⟨packed, store⟩ := write_isSome (library.store files) still free
  obtain ⟨_, _, stores⟩ := write_eq_some store
  refine ⟨packed, ?_, ?_, ?_⟩
  · rw [zip, here, Effect.exec_bind_ok (exec_change_some create),
      Effect.exec_bind_ok (Effect.exec_get _), entries]
    exact exec_change_some store
  · rw [openArchive, here, stores, if_pos rfl]
    exact library.faithful files
  · intro q other
    rw [here] at other
    rw [stores, if_neg other, creates, if_neg other]

theorem exec_roundTrip {library : ZipLibrary Content} {source filename dest : String}
    (place : PackingPlace cwd fs source filename dest) :
    ∃ packed files machine,
      Effect.exec (zip library cwd source filename) fs = (.ok (), packed) ∧
      openArchive library cwd packed filename = some files ∧
      (files.map ZipFile.name).Nodup ∧
      Effect.exec (Operations.unzip (fileCalls cwd) (some cwd) dest
        (openArchive library cwd packed filename)) ⟨packed, []⟩ = (.ok (), machine) ∧
      Unpacked fs (locate cwd source) machine.world (locate cwd dest)
        (packedNodes cwd fs source) := by
  obtain ⟨created, create⟩ := Option.isSome_iff_exists.mp place.creatable
  have other : ∀ {l : Location Name} {r}, ¬ l <:+ locate cwd filename →
      r ++ l ≠ locate cwd filename := by
    rintro l r apart same
    rw [← same] at apart
    exact apart (List.suffix_append r l)
  have tree : ∀ r, created.lookup (r ++ locate cwd source) = fs.lookup (r ++ locate cwd source) :=
    fun r => lookup_write create (other place.outside)
  have top := tree []
  rw [List.nil_append] at top
  have directory : stat cwd created source = some .directory := by
    rw [stat, top]
    exact place.directory
  have sourceThere : created.lookup (locate cwd source) = some .directory := by
    rw [stat] at directory
    split at directory
    · cases directory
    · exact directory
  obtain ⟨packed, archived, opened, lookups⟩ := exec_zip library create directory
  have kept : ∀ r, packed.lookup (r ++ locate cwd dest) = fs.lookup (r ++ locate cwd dest) :=
    fun r => lookups _ (other place.apart)
  have empty : Unpacked created (locate cwd source) packed
      (locate cwd (absPath cwd.path dest)) [] := by
    rw [locate_absPath]
    apply unpacked_nil sourceThere
    · have bottom := kept []
      rw [List.nil_append, place.target] at bottom
      exact bottom
    · exact fun r below => (kept r).trans (place.empty r below)
  have nodes : ∀ item ∈ packedNodes cwd created source, item.1 ≠ [] ∧
      created.lookup (item.1.reverse ++ locate cwd source) = some item.2 := by
    intro item member
    obtain ⟨found, kept⟩ := mem_packedNodes.mp member
    exact ⟨kept.ne_nil, found⟩
  obtain ⟨final, touched, ran, unpacked⟩ := empty.unzip (isRooted_absPath cwd dest) nodes []
  refine ⟨packed, _, ⟨final, touched⟩, archived, opened, ?_, ?_, ?_⟩
  · rw [List.map_map]
    exact nodup_packedNodes cwd created source
  · rw [opened, Operations.unzip, absDest_eq]
    exact ran
  · rw [locate_absPath] at unpacked
    apply unpacked.congr tree
    rintro ⟨names, node⟩
    rw [List.nil_append, mem_packedNodes, mem_packedNodes, tree]

omit [Inhabited Content] in
theorem Unpacked.exact_iff {items : List (List Name × Node Content)}
    (unpacked : Unpacked fs source world dest items) :
    (∀ r, world.lookup (r ++ dest) = fs.lookup (r ++ source)) ↔
      ∀ r, (fs.lookup (r ++ source)).isSome = true → Covered items r := by
  constructor
  · intro exact r there
    by_contra outside
    rw [← exact r, unpacked.free r outside] at there
    cases there
  · intro all r
    by_cases reached : Covered items r
    · exact unpacked.covered r reached
    · rw [unpacked.free r reached]
      cases found : fs.lookup (r ++ source) with
      | none => rfl
      | some node => exact absurd (all r (by rw [found]; rfl)) reached

omit [Inhabited Content] in
/-- Whether every node is packed or above a packed one. -/
theorem covered_iff_restorable {source : String} :
    (∀ r, (fs.lookup (r ++ locate cwd source)).isSome = true →
        Covered (packedNodes cwd fs source) r) ↔
      Restorable fs (basePath source) (locate cwd source) := by
  constructor
  · intro all name r node named found
    rcases all (name :: r) (by rw [found]; rfl) with root | ⟨⟨names, node'⟩, member, t, way⟩
    · cases root
    · obtain ⟨there, packed⟩ := mem_packedNodes.mp member
      dsimp only at way
      rw [← way] at there
      have ordered : names = (t ++ name :: r).reverse := by
        rw [way, List.reverse_reverse]
      cases t with
      | nil =>
          rw [ordered, List.nil_append, List.reverse_cons, packed_concat] at packed
          exact absurd named packed
      | cons other t =>
          rw [ordered, List.cons_append, List.reverse_cons, packed_concat] at packed
          have some : (fs.lookup (other :: t ++ name :: r ++ locate cwd source)).isSome = true := by
            rw [there]
            rfl
          rw [List.append_assoc] at some
          have directory := lookup_suffix (List.cons_ne_nil other t) some
          rw [← List.append_assoc] at some
          exact ⟨Option.some.inj (found.symm.trans directory), other, t, packed, some⟩
  · intro restorable r there
    cases r with
    | nil => exact .inl rfl
    | cons name r =>
        obtain ⟨node, found⟩ := Option.isSome_iff_exists.mp there
        -- a node with another name is packed itself
        have reached : ∀ {other : Name} {l : Location Name}, other.val ≠ basePath source →
            (fs.lookup (other :: l ++ locate cwd source)).isSome = true → name :: r <:+ other :: l →
            Covered (packedNodes cwd fs source) (name :: r) := by
          intro other l different some above
          obtain ⟨node', here⟩ := Option.isSome_iff_exists.mp some
          have member : ((other :: l).reverse, node') ∈ packedNodes cwd fs source := by
            rw [mem_packedNodes, List.reverse_reverse, List.reverse_cons, packed_concat]
            exact ⟨here, different⟩
          refine .inr ⟨_, member, ?_⟩
          rw [List.reverse_reverse]
          exact above
        by_cases named : name.val = basePath source
        · obtain ⟨_, other, t, different, some⟩ := restorable name r node named found
          exact reached (l := t ++ name :: r) different some
            ((List.suffix_append t _).trans (List.suffix_cons other _))
        · exact reached named there List.suffix_rfl

theorem roundTrips_iff_covered {library : ZipLibrary Content} {source filename dest : String}
    (place : PackingPlace cwd fs source filename dest) :
    RoundTrips library cwd fs source filename dest ↔
      ∀ r, (fs.lookup (r ++ locate cwd source)).isSome = true →
        Covered (packedNodes cwd fs source) r := by
  obtain ⟨packed, files, machine, archived, opened, nodup, ran, unpacked⟩ := exec_roundTrip place
  rw [← unpacked.exact_iff]
  constructor
  · rintro ⟨packed', files', machine', archived', _, _, ran', exact⟩
    obtain ⟨_, rfl⟩ := Prod.mk.inj (archived.symm.trans archived')
    obtain ⟨_, rfl⟩ := Prod.mk.inj (ran.symm.trans ran')
    exact exact
  · exact fun exact => ⟨packed, files, machine, archived, opened, nodup, ran, exact⟩

/-- A nested file that is named like the source is lost. -/
theorem not_roundTrips_of_file {library : ZipLibrary Content} {source filename dest : String}
    (place : PackingPlace cwd fs source filename dest) {name : Name} {r : Location Name}
    {content : Content} (named : name.val = basePath source)
    (file : fs.lookup (name :: r ++ locate cwd source) = some (.file content)) :
    ¬ RoundTrips library cwd fs source filename dest := by
  intro round
  have restorable := covered_iff_restorable.mp ((roundTrips_iff_covered place).mp round)
  cases (restorable name r _ named file).1

/-- A packed directory comes back exactly when no nested file is named like it and every
nested directory that is has something below it with another name. -/
theorem zip_unzip_iff {library : ZipLibrary Content} {source filename dest : String}
    (place : PackingPlace cwd fs source filename dest) :
    RoundTrips library cwd fs source filename dest ↔
      Restorable fs (basePath source) (locate cwd source) :=
  (roundTrips_iff_covered place).trans covered_iff_restorable

/-- What a file holds: a text, or the entries of an archive. -/
inductive Data where
  | text (chars : String)
  | archive (files : List (ZipFile Data))

instance : Inhabited Data := ⟨.text ""⟩

def dataLibrary : ZipLibrary Data where
  store := .archive
  entries := fun data =>
    match data with
    | .archive files => some files
    | .text _ => none
  faithful _ := rfl

def rootDirectory : WorkingDirectory := ⟨"/", by decide⟩

def fmuName : Name := ⟨"gateway", by decide⟩

def outName : Name := ⟨"out", by decide⟩

/-- The FMU `/gateway` holds one file, which has its name. -/
def fmuTree : FileSystem Name Data :=
  ofNodes [([fmuName], .directory), ([fmuName, fmuName], .file (.text "model")),
    ([outName], .directory)]

theorem packingPlace_fmuTree :
    PackingPlace rootDirectory fmuTree "/gateway" "/gateway.fmu" "/out" := by
  have source : locate rootDirectory "/gateway" = [fmuName] := by decide
  have filename : locate rootDirectory "/gateway.fmu" = [⟨"gateway.fmu", by decide⟩] := by decide
  have dest : locate rootDirectory "/out" = [outName] := by decide
  have keys : ∀ p ∈ fmuTree.nodes.keys, [outName] <:+ p → p = [outName] := by decide
  constructor
  · rw [stat, if_neg (by decide), source]
    exact isDirectory_iff.mp (by decide)
  · rw [filename]
    decide
  · rw [source, filename]
    decide
  · rw [dest]
    exact isDirectory_iff.mp (by decide)
  · intro r below
    rw [dest]
    by_contra there
    have key := mem_keys (Option.isSome_iff_ne_none.mpr there)
    have root := keys _ key (List.suffix_append r _)
    exact below (List.append_left_eq_self.mp root)
  · rw [dest, filename]
    decide

theorem zip_unzip_iff_fmuTree :
    RoundTrips dataLibrary rootDirectory fmuTree "/gateway" "/gateway.fmu" "/out" ↔
      Restorable fmuTree (basePath "/gateway") (locate rootDirectory "/gateway") :=
  zip_unzip_iff packingPlace_fmuTree

theorem zip_unzip_loses : PackingPlace rootDirectory fmuTree "/gateway" "/gateway.fmu" "/out" ∧
    ¬ RoundTrips dataLibrary rootDirectory fmuTree "/gateway" "/gateway.fmu" "/out" := by
  have source : locate rootDirectory "/gateway" = [fmuName] := by decide
  have base : fmuName.val = basePath "/gateway" := by decide
  have file : fmuTree.lookup (fmuName :: [] ++ locate rootDirectory "/gateway") =
      some (.file (.text "model")) := by
    rw [source]
    rfl
  exact ⟨packingPlace_fmuTree, not_roundTrips_of_file packingPlace_fmuTree base file⟩

end DseFmi.Operations
