import DseFmi.Generate.FmuPackage
import DseFmi.Operations.ZipRoundTrip

/-!
# What a package holds

Copying leaves alone what is there, so a package that is built where an earlier run has left
its files keeps these. It is up to date exactly when no file in the way is another one.
-/

namespace DseFmi.Generate

open DseFmi.Library DseFmi.Operations FileSystem

variable {Content : Type} {cwd : WorkingDirectory} {q : Location Name}
  {found : Option (Node Content)}

def Holds (q : Location Name) (found : Option (Node Content)) (fs : FileSystem Name Content) :
    Prop := fs.lookup q = found

theorem keeps_change {f : FileSystem Name Content → Option (FileSystem Name Content)}
    (leaves : ∀ fs fs', f fs = some fs' → fs'.lookup q = fs.lookup q) :
    Effect.Keeps (Holds q found) (change f) := by
  intro fs holds
  cases possible : f fs with
  | none =>
      rw [exec_change_none possible]
      exact holds
  | some fs' =>
      rw [exec_change_some possible]
      exact (leaves fs fs' possible).trans holds

theorem keeps_extending {node : Node Content}
    {f : FileSystem Name Content → Option (FileSystem Name Content)}
    (more : ∀ fs fs', f fs = some fs' → Extends fs fs') :
    Effect.Keeps (Holds q (some node)) (change f) := by
  intro fs holds
  cases possible : f fs with
  | none =>
      rw [exec_change_none possible]
      exact holds
  | some fs' =>
      rw [exec_change_some possible]
      exact more fs fs' possible q node holds

theorem keeps_mkdirAllAt {node : Node Content} (path : String) :
    Effect.Keeps (Holds q (some node)) (mkdirAllAt cwd path) := by
  rw [mkdirAllAt]
  split
  · exact Effect.Keeps.throw _
  · exact keeps_extending fun _ _ made => (mkdirAll_eq_some made).2.1

theorem keeps_writeXml {doc : Option Content} {path : String} (other : q ≠ locate cwd path) :
    Effect.Keeps (Holds q found) (writeXml cwd doc path) := by
  cases doc with
  | none => exact Effect.Keeps.throw _
  | some content => exact keeps_change fun _ _ written => lookup_write written other

theorem keeps_writeYaml [Append Content] {doc : Option Content} {path : String} {append : Bool}
    (other : q ≠ locate cwd path) :
    Effect.Keeps (Holds q found) (writeYaml cwd doc path append) := by
  cases doc with
  | none => exact Effect.Keeps.throw _
  | some content =>
      apply keeps_change
      intro fs fs' written
      split at written
      · exact lookup_write written other
      · exact lookup_write written other

theorem keeps_removeAt {path : String} (other : q ≠ locate cwd path) :
    Effect.Keeps (Holds q found) (removeAt cwd path) := by
  intro fs holds
  rw [removeAt, Effect.exec_of]
  dsimp only
  cases removed : fs.remove (locate cwd path) with
  | none => exact holds
  | some fs' =>
      cases place : locate cwd path with
      | nil =>
          rw [place] at removed
          cases removed
      | cons name p =>
          rw [place] at removed other
          exact (remove_eq_some removed q).trans ((if_neg other).trans holds)

theorem keeps_writeGatewayFiles [Append Content] {c : PackageArguments Content}
    (yaml : q ≠ locate cwd c.fmuYaml) (model : q ≠ locate cwd c.modelYamlPath) :
    Effect.Keeps (Holds q found) (writeGatewayFiles cwd c) :=
  (keeps_removeAt yaml).bind fun _ =>
    (Effect.Keeps.forM fun _ _ => keeps_writeYaml yaml).bind fun _ => keeps_writeYaml model

theorem keeps_copy [Inhabited Content] {node : Node Content} (src dest : Location Name) :
    Effect.Keeps (Holds q (some node)) (copy src dest) :=
  fun fs holds => (changes_copy src dest fs).more q node holds

theorem keeps_copyDirectory [Inhabited Content] {node : Node Content} (fuel : Nat)
    (src dest : Location Name) :
    Effect.Keeps (Holds q (some node)) (copyDirectory fuel src dest) :=
  fun fs holds => (changes_copyDirectory fuel src dest fs).more q node holds

theorem keeps_zip [Inhabited Content] {library : ZipLibrary Content} {source destination : String}
    (other : q ≠ locate cwd destination) :
    Effect.Keeps (Holds q found) (zip library cwd source destination) := by
  have write : ∀ content, Effect.Keeps (Holds q found)
      (change fun fs => fs.write content (locate cwd destination)) :=
    fun content => keeps_change fun _ _ written => lookup_write written other
  refine (write default).bind fun _ => Effect.Keeps.get.bind fun fs => ?_
  cases zipEntries cwd source fs with
  | error e => exact Effect.Keeps.throw e
  | ok files => exact write _

theorem libExtension_mem (platform : String) : libExtension platform ∈ [".so", ".dll"] := by
  rw [libExtension]
  split <;> decide

theorem isEnding_libExtension (platform : String) : IsEnding (libExtension platform) := by
  rw [libExtension]
  split
  · exact ⟨by decide, by decide⟩
  · exact ⟨by decide, by decide⟩

def OtherEnding (ending : String) : Prop :=
  ∀ e ∈ [".so", ".dll"], ¬ e.toList <:+ ending.toList ∧ ¬ ending.toList <:+ e.toList

instance (ending : String) : Decidable (OtherEnding ending) :=
  inferInstanceAs (Decidable (∀ e ∈ [".so", ".dll"],
    ¬ e.toList <:+ ending.toList ∧ ¬ ending.toList <:+ e.toList))

/-- A joined name with an ending leads to an element with this ending. -/
theorem locate_joinPath_ending (cwd : WorkingDirectory) (p name : String) {ending : String}
    (ends : IsEnding ending) :
    ∃ last stack, (locate cwd (joinPath [p, name ++ ending])).map Subtype.val =
      (last ++ ending) :: stack := by
  have second : name ++ ending ≠ "" := by
    intro none
    have chars := congrArg String.toList none
    rw [String.toList_append] at chars
    have long := ends.long
    rw [(List.append_eq_nil_iff.mp chars).2] at long
    exact absurd long (by decide)
  obtain ⟨t, joined⟩ : ∃ t, joinPath [p, name ++ ending] = cleanPath (t ++ ending) := by
    by_cases empty : p = ""
    · exact ⟨name, by rw [empty, joinPath_empty second]⟩
    · exact ⟨p ++ "/" ++ name, by rw [joinPath_pair empty second, ← String.append_assoc]⟩
  obtain ⟨last, stack, elements, _⟩ := elements_absPath_ending cwd.rooted t ends
  refine ⟨last, stack, ?_⟩
  rw [map_locate, joined, elements_absPath_cleanPath cwd.rooted, elements]

theorem locate_ne {p p' : String} {e e' : String} {stack stack' : List String}
    (first : (locate cwd p).map Subtype.val = e :: stack)
    (second : (locate cwd p').map Subtype.val = e' :: stack') (other : e ≠ e') :
    locate cwd p ≠ locate cwd p' := by
  intro same
  rw [same, second] at first
  exact other (List.cons.inj first).1.symm

section Places

variable (c : PackageArguments Content)

theorem locate_resourcesSim (cwd : WorkingDirectory) : ∃ sim resources : Name,
    sim.val = "sim" ∧ locate cwd c.resourcesSim = sim :: resources :: locate cwd c.fmuOutDir := by
  refine ⟨⟨"sim", by decide⟩, ⟨"resources", by decide⟩, rfl, ?_⟩
  apply locate_eq
  rw [PackageArguments.resourcesSim, elements_absPath_joinPath_names cwd.rooted _ (by simp)
    (by decide), List.reverse_append, List.map_cons, List.map_cons, map_locate]
  rfl

theorem locate_file (p : String) {name : String} (named : IsName name) :
    locate cwd (joinPath [p, name]) = ⟨name, named⟩ :: locate cwd p :=
  locate_joinPath cwd p ⟨name, named⟩

theorem tgt_ne_ending {p last ending : String} {stack : List String}
    (here : (locate cwd p).map Subtype.val = (last ++ ending) :: stack)
    (other : OtherEnding ending) : locate cwd c.tgt ≠ locate cwd p := by
  obtain ⟨name, upper, there⟩ := locate_joinPath_ending cwd c.fmuBinPath c.modelIdentifier
    (isEnding_libExtension c.platform)
  obtain ⟨first, second⟩ := other _ (libExtension_mem c.platform)
  exact locate_ne there here (append_ne_append first second)

theorem tgt_ne_file (p : String) {name : String} (named : IsName name) (other : OtherEnding name) :
    locate cwd c.tgt ≠ locate cwd (joinPath [p, name]) := by
  have here : (locate cwd (joinPath [p, name])).map Subtype.val =
      ("" ++ name) :: (locate cwd p).map Subtype.val := by
    rw [locate_file p named, List.map_cons, String.empty_append]
  exact tgt_ne_ending c here other

theorem tgt_ne_fmu : locate cwd c.tgt ≠ locate cwd c.fmuFilename := by
  have ends : IsEnding ".fmu" := ⟨by decide, by decide⟩
  obtain ⟨last, stack, elements, _⟩ := elements_absPath_ending cwd.rooted c.fmuOutDir ends
  rw [← map_locate] at elements
  exact tgt_ne_ending c elements (by decide)

theorem resources_ne (cwd : WorkingDirectory) (r : Location Name) :
    r ++ locate cwd c.resourcesSim ≠ locate cwd c.fmuModelDescriptionFilename ∧
      r ++ locate cwd c.resourcesSim ≠ locate cwd c.fmuFilename := by
  obtain ⟨sim, resources, named, place⟩ := locate_resourcesSim c cwd
  constructor
  · rw [place, PackageArguments.fmuModelDescriptionFilename, locate_file _ (by decide)]
    intro same
    have lengths := congrArg List.length same
    simp only [List.length_append, List.length_cons] at lengths
    omega
  · intro same
    have ends : IsEnding ".fmu" := ⟨by decide, by decide⟩
    obtain ⟨last, stack, elements, short⟩ :=
      elements_absPath_ending cwd.rooted c.fmuOutDir ends
    rw [← map_locate, ← PackageArguments.fmuFilename, ← same, place] at elements
    rw [← length_locate] at short
    cases r with
    | nil =>
        have first : sim.val = last ++ ".fmu" := (List.cons.inj elements).1
        rw [named] at first
        have apart := append_ne_append (a := last) (b := "") (e := ".fmu") (f := "sim")
          (by decide) (by decide)
        exact apart (first.symm.trans (String.empty_append).symm)
    | cons name r =>
        rw [List.cons_append, List.map_cons] at elements
        have lengths := congrArg List.length (List.cons.inj elements).2
        simp only [List.length_map, List.length_append, List.length_cons] at lengths
        omega

end Places

section Run

variable [Inhabited Content] [Append Content]

/-- A build that succeeds, with the states before its copies. -/
structure PackageRun (cwd : WorkingDirectory) (c : PackageArguments Content)
    (library : ZipLibrary Content) (fuel : Nat)
    (fs laidOut copying final : FileSystem Name Content) : Prop where
  layout : Effect.exec (makeLayout cwd c) fs = (.ok (), laidOut)
  inputs : Effect.exec (copyBinaries cwd c >>= fun _ => writeGatewayFiles cwd c) laidOut =
    (.ok (), copying)
  packed : Effect.exec (packResources cwd c library fuel) copying = (.ok (), final)

/-- Every build that succeeds goes through these states. -/
theorem buildFmuPackage_ok_iff {c : PackageArguments Content} {library : ZipLibrary Content}
    {fuel : Nat} {fs final : FileSystem Name Content} :
    Effect.exec (buildFmuPackage cwd c library fuel) fs = (.ok (), final) ↔
      ∃ laidOut copying, PackageRun cwd c library fuel fs laidOut copying final := by
  rw [buildFmuPackage, Effect.exec_bind_eq_ok]
  constructor
  · rintro ⟨_, laidOut, layout, rest⟩
    obtain ⟨_, copied, binaries, rest⟩ := Effect.exec_bind_eq_ok.mp rest
    obtain ⟨_, copying, gateway, packed⟩ := Effect.exec_bind_eq_ok.mp rest
    exact ⟨laidOut, copying, layout, (Effect.exec_bind_ok binaries).trans gateway, packed⟩
  · rintro ⟨laidOut, copying, layout, inputs, packed⟩
    obtain ⟨_, copied, binaries, gateway⟩ := Effect.exec_bind_eq_ok.mp inputs
    exact ⟨(), laidOut, layout, (Effect.exec_bind_ok binaries).trans
      ((Effect.exec_bind_ok gateway).trans packed)⟩

variable {c : PackageArguments Content} {library : ZipLibrary Content} {fuel : Nat}
  {fs laidOut copying final : FileSystem Name Content}

/-- A file of the simulation directory is in the package, unless something else was in its
place. -/
theorem PackageRun.resource (run : PackageRun cwd c library fuel fs laidOut copying final)
    {r : Location Name} {content : Content}
    (file : copying.lookup (r ++ locate cwd c.simpath) = some (.file content)) :
    final.lookup (r ++ locate cwd c.resourcesSim) =
      (copying.lookup (r ++ locate cwd c.resourcesSim)).or (some (.file content)) := by
  obtain ⟨description, archive⟩ := resources_ne c cwd r
  have packed := run.packed
  rw [packResources] at packed
  split at packed
  · cases congrArg Prod.fst packed
  · obtain ⟨_, copied, copies, rest⟩ := Effect.exec_bind_eq_ok.mp packed
    have keeps : Effect.Keeps
        (Holds (r ++ locate cwd c.resourcesSim) (copied.lookup (r ++ locate cwd c.resourcesSim)))
        (writeXml cwd c.fmuXml c.fmuModelDescriptionFilename >>= fun _ =>
          zip library cwd c.fmuOutDir c.fmuFilename) :=
      (keeps_writeXml description).bind fun _ => keeps_zip archive
    have last := keeps copied rfl
    rw [rest] at last
    exact Eq.trans last (copyDirectory_ok copies file)

theorem PackageRun.binary (run : PackageRun cwd c library fuel fs laidOut copying final)
    {content : Content}
    (file : laidOut.lookup (locate cwd (c.src cwd laidOut)) = some (.file content)) :
    final.lookup (locate cwd c.tgt) =
      (laidOut.lookup (locate cwd c.tgt)).or (some (.file content)) := by
  obtain ⟨_, copied, binaries, gateway⟩ := Effect.exec_bind_eq_ok.mp run.inputs
  rw [copyBinaries, Effect.exec_bind_ok (Effect.exec_get laidOut)] at binaries
  obtain ⟨_, first, copies, windows⟩ := Effect.exec_bind_eq_ok.mp binaries
  have placed := copy_ok copies file
  obtain ⟨node, there⟩ : ∃ node, (laidOut.lookup (locate cwd c.tgt)).or (some (.file content)) =
      some node := by
    cases laidOut.lookup (locate cwd c.tgt) with
    | none => exact ⟨_, rfl⟩
    | some node => exact ⟨node, rfl⟩
  rw [there] at placed ⊢
  -- every later step leaves it alone
  have kept : Holds (locate cwd c.tgt) (some node) copied := by
    have keeps : Effect.Keeps (Holds (locate cwd c.tgt) (some node))
        (if platformOs c.platform "windows" then
          copy (locate cwd (getFmuLibPath c.fmiPackage "../../lib/libmodelc" c.platform))
            (locate cwd (getFmuBinPath c.fmuBinPath "libmodelc" c.platform))
        else pure () : Files Name Content Unit) := by
      split
      · exact keeps_copy _ _
      · exact Effect.Keeps.pure _
    have after := keeps first placed
    rw [windows] at after
    exact after
  have written : Holds (locate cwd c.tgt) (some node) copying := by
    have yaml : locate cwd c.tgt ≠ locate cwd c.fmuYaml :=
      tgt_ne_file c c.gwFilePath (by decide) (by decide)
    have model : locate cwd c.tgt ≠ locate cwd c.modelYamlPath :=
      tgt_ne_file c c.gwFilePath (by decide) (by decide)
    have after := keeps_writeGatewayFiles yaml model copied kept
    rw [gateway] at after
    exact after
  have keeps : Effect.Keeps (Holds (locate cwd c.tgt) (some node))
      (packResources cwd c library fuel) := by
    have description : locate cwd c.tgt ≠ locate cwd c.fmuModelDescriptionFilename :=
      tgt_ne_file c c.fmuOutDir (by decide) (by decide)
    rw [packResources]
    split
    · exact Effect.Keeps.throw _
    · exact (keeps_copyDirectory fuel _ _).bind fun _ =>
        (keeps_writeXml description).bind fun _ => keeps_zip (tgt_ne_fmu c)
  have after := keeps copying written
  rw [run.packed] at after
  exact after

/-- What earlier runs have left is still there when the copy of the simulation begins. -/
theorem PackageRun.kept (run : PackageRun cwd c library fuel fs laidOut copying final)
    {node : Node Content} (found : fs.lookup q = some node) (yaml : q ≠ locate cwd c.fmuYaml)
    (model : q ≠ locate cwd c.modelYamlPath) : copying.lookup q = some node := by
  have layout : Effect.Keeps (Holds q (some node)) (makeLayout cwd c) := by
    refine (keeps_mkdirAllAt _).bind fun _ => (keeps_mkdirAllAt _).bind fun _ => ?_
    split
    · exact Effect.Keeps.throw _
    · exact keeps_mkdirAllAt _
  have inputs : Effect.Keeps (Holds q (some node))
      (copyBinaries cwd c >>= fun _ => writeGatewayFiles cwd c) := by
    refine Effect.Keeps.bind ?_ fun _ => keeps_writeGatewayFiles yaml model
    refine Effect.Keeps.get.bind fun fs => (keeps_copy _ _).bind fun _ => ?_
    split
    · exact keeps_copy _ _
    · exact Effect.Keeps.pure _
  have first := layout fs found
  rw [run.layout] at first
  have second := inputs laidOut first
  rw [run.inputs] at second
  exact second

/-- The model of this run is in the simulation directory when it is copied. -/
theorem PackageRun.modelYaml (run : PackageRun cwd c library fuel fs laidOut copying final)
    {content : Content} (model : c.modelFile = some content) :
    copying.lookup (locate cwd c.modelYamlPath) = some (.file content) := by
  obtain ⟨_, copied, _, gateway⟩ := Effect.exec_bind_eq_ok.mp run.inputs
  obtain ⟨_, removed, _, rest⟩ := Effect.exec_bind_eq_ok.mp gateway
  obtain ⟨_, listed, _, written⟩ := Effect.exec_bind_eq_ok.mp rest
  rw [model, writeYaml] at written
  have write := exec_change_ok written
  dsimp only at write
  obtain ⟨name, place⟩ : ∃ name, locate cwd c.modelYamlPath = name :: locate cwd c.gwFilePath :=
    ⟨_, locate_file c.gwFilePath (by decide)⟩
  rw [place] at write ⊢
  rw [(write_eq_some write).2.2, if_pos rfl]
/-- The package has each file of the simulation directory as it was when it was copied and
the library of the FMI package, as a build has them that finds nothing in its way. -/
structure UpToDate (cwd : WorkingDirectory) (c : PackageArguments Content)
    (laidOut copying final : FileSystem Name Content) : Prop where
  resources : ∀ r content, copying.lookup (r ++ locate cwd c.simpath) = some (.file content) →
    final.lookup (r ++ locate cwd c.resourcesSim) = some (.file content)
  binary : ∃ content, laidOut.lookup (locate cwd (c.src cwd laidOut)) = some (.file content) ∧
    final.lookup (locate cwd c.tgt) = some (.file content)
  clean : ∀ {library : ZipLibrary Content} {fuel : Nat}
    {fs' laidOut' copying' final' : FileSystem Name Content},
    PackageRun cwd c library fuel fs' laidOut' copying' final' →
    laidOut'.lookup (locate cwd c.tgt) = none →
    (∀ r, copying'.lookup (r ++ locate cwd c.resourcesSim) = none) →
    laidOut'.lookup (locate cwd (c.src cwd laidOut')) =
      laidOut.lookup (locate cwd (c.src cwd laidOut)) →
    (∀ r, copying'.lookup (r ++ locate cwd c.simpath) =
      copying.lookup (r ++ locate cwd c.simpath)) →
    final.lookup (locate cwd c.tgt) = final'.lookup (locate cwd c.tgt) ∧
      ∀ r content, copying.lookup (r ++ locate cwd c.simpath) = some (.file content) →
        final.lookup (r ++ locate cwd c.resourcesSim) =
          final'.lookup (r ++ locate cwd c.resourcesSim)

structure Fresh (cwd : WorkingDirectory) (c : PackageArguments Content)
    (laidOut copying : FileSystem Name Content) : Prop where
  resources : ∀ r content, copying.lookup (r ++ locate cwd c.simpath) = some (.file content) →
    copying.lookup (r ++ locate cwd c.resourcesSim) = none ∨
      copying.lookup (r ++ locate cwd c.resourcesSim) = some (.file content)
  binary : ∃ content, laidOut.lookup (locate cwd (c.src cwd laidOut)) = some (.file content) ∧
    (laidOut.lookup (locate cwd c.tgt) = none ∨
      laidOut.lookup (locate cwd c.tgt) = some (.file content))

omit [Inhabited Content] [Append Content] in
theorem or_eq_some_iff {old : Option (Node Content)} {node : Node Content} :
    old.or (some node) = some node ↔ old = none ∨ old = some node := by
  cases old with
  | none => exact ⟨fun _ => .inl rfl, fun _ => rfl⟩
  | some other => exact ⟨.inr, fun same => same.resolve_left nofun⟩

/-- A build that succeeds leaves an up-to-date package exactly when no other file was in the
place of a copy. -/
theorem buildFmuPackage_upToDate_iff
    (ran : Effect.exec (buildFmuPackage cwd c library fuel) fs = (.ok (), final)) :
    ∃ laidOut copying, PackageRun cwd c library fuel fs laidOut copying final ∧
      (UpToDate cwd c laidOut copying final ↔ Fresh cwd c laidOut copying) := by
  obtain ⟨laidOut, copying, run⟩ := buildFmuPackage_ok_iff.mp ran
  refine ⟨laidOut, copying, run, ?_, ?_⟩
  · intro upToDate
    refine ⟨?_, ?_⟩
    · intro r content file
      have placed := upToDate.resources r content file
      rw [run.resource file] at placed
      exact or_eq_some_iff.mp placed
    · obtain ⟨content, file, placed⟩ := upToDate.binary
      rw [run.binary file] at placed
      exact ⟨content, file, or_eq_some_iff.mp placed⟩
  · intro fresh
    obtain ⟨library, here, free⟩ := fresh.binary
    have binary : final.lookup (locate cwd c.tgt) = some (.file library) :=
      (run.binary here).trans (or_eq_some_iff.mpr free)
    have resources : ∀ r content,
        copying.lookup (r ++ locate cwd c.simpath) = some (.file content) →
        final.lookup (r ++ locate cwd c.resourcesSim) = some (.file content) :=
      fun r content file =>
        (run.resource file).trans (or_eq_some_iff.mpr (fresh.resources r content file))
    refine ⟨resources, ⟨library, here, binary⟩, ?_⟩
    intro _ _ _ _ _ _ other noBinary noResources sameLibrary sameFiles
    refine ⟨?_, ?_⟩
    · rw [binary, other.binary (sameLibrary.trans here), noBinary]
      rfl
    · intro r content file
      rw [resources r content file, other.resource ((sameFiles r).trans file), noResources r]
      rfl

/-- A model that an earlier run has left in the package stays there. -/
theorem PackageRun.not_upToDate (run : PackageRun cwd c library fuel fs laidOut copying final)
    {old new : Content} (other : old ≠ new) (model : c.modelFile = some new) {r : Location Name}
    (inside : locate cwd c.modelYamlPath = r ++ locate cwd c.simpath)
    (left : fs.lookup (r ++ locate cwd c.resourcesSim) = some (.file old))
    (yaml : r ++ locate cwd c.resourcesSim ≠ locate cwd c.fmuYaml)
    (apart : r ++ locate cwd c.resourcesSim ≠ locate cwd c.modelYamlPath) :
    ¬ UpToDate cwd c laidOut copying final := by
  intro upToDate
  have fresh := run.modelYaml model
  rw [inside] at fresh
  have placed := upToDate.resources r new fresh
  rw [run.resource fresh, run.kept left yaml apart] at placed
  exact other (Node.file.inj (Option.some.inj placed))

end Run

instance : Append Data where
  append a b :=
    match a, b with
    | .text first, .text second => .text (first ++ second)
    | _, _ => b

def staleArguments : PackageArguments Data where
  simpath := "/sim"
  outdir := "/out"
  name := "gw"
  platform := "linux-amd64"
  fmiVersion := "2"
  fmiPackage := "/pkg"
  modelIdentifier := "gw"
  signalGroupFile := [some (.text "new")]
  modelFile := some (.text "new")
  fmuXml := some (.text "new")

def nameOf (e : String) : Name := if h : IsName e then ⟨e, h⟩ else ⟨"x", by decide⟩

def locationOf (p : List String) : Location Name := (p.map nameOf).reverse

def staleDirectories : List (List String) :=
  [["sim"], ["sim", "model"], ["out"], ["out", "gw"], ["out", "gw", "resources"],
    ["out", "gw", "resources", "sim"], ["out", "gw", "resources", "sim", "model"],
    ["out", "gw", "resources", "sim", "model", "gw"],
    ["out", "gw", "resources", "sim", "model", "gw", "data"], ["pkg"], ["pkg", "lib"]]

/-- The output directory has a package with an old model. -/
def staleOutput : FileSystem Name Data :=
  ofNodes (staleDirectories.map (fun p => (locationOf p, .directory)) ++
    [(locationOf ["out", "gw", "resources", "sim", "model", "gw", "data", "model.yaml"],
        .file (.text "old")),
      (locationOf ["pkg", "lib", "libgw.so"], .file (.text "library"))])

theorem locate_stale :
    locate rootDirectory staleArguments.gwFilePath = locationOf ["sim", "model", "gw", "data"] ∧
    locate rootDirectory staleArguments.fmuOutDir = locationOf ["out", "gw"] ∧
    locate rootDirectory staleArguments.fmuBinPath =
      locationOf ["out", "gw", "binaries", "linux64"] ∧
    locate rootDirectory staleArguments.tgt =
      locationOf ["out", "gw", "binaries", "linux64", "gw.so"] ∧
    getFmuLibPath staleArguments.fmiPackage ("lib" ++ staleArguments.modelIdentifier)
      staleArguments.platform = "/pkg/lib/libgw.so" ∧
    locate rootDirectory "/pkg/lib/libgw.so" = locationOf ["pkg", "lib", "libgw.so"] := by
  decide +kernel

theorem locate_staleYaml :
    locate rootDirectory staleArguments.fmuYaml =
      locationOf ["sim", "model", "gw", "data", "fmu.yaml"] ∧
    locate rootDirectory staleArguments.modelYamlPath =
      locationOf ["sim", "model", "gw", "data", "model.yaml"] ∧
    locate rootDirectory staleArguments.resourcesSim =
      locationOf ["out", "gw", "resources", "sim"] ∧
    locate rootDirectory staleArguments.fmuModelDescriptionFilename =
      locationOf ["out", "gw", "modelDescription.xml"] ∧
    locate rootDirectory staleArguments.fmuFilename = locationOf ["out", "gw.fmu"] := by
  decide +kernel

theorem nonempty_stale : staleArguments.gwFilePath ≠ "" ∧ staleArguments.fmuOutDir ≠ "" ∧
    staleArguments.fmuBinPath ≠ "" ∧
    getFmuBinaryDirName staleArguments.platform staleArguments.fmiVersion ≠ "" ∧
    platformOs staleArguments.platform "windows" = false := by
  decide +kernel

/-- The steps of the build before the archive is made. -/
def staleSteps : Files Name Data Unit := do
  makeLayout rootDirectory staleArguments
  copyBinaries rootDirectory staleArguments
  writeGatewayFiles rootDirectory staleArguments
  copyDirectory 4 (locationOf ["sim"]) (locationOf ["out", "gw", "resources", "sim"])
  writeXml rootDirectory staleArguments.fmuXml staleArguments.fmuModelDescriptionFilename

theorem staleSteps_ok : (Effect.exec staleSteps staleOutput).1.toBool = true ∧
    (Effect.exec staleSteps staleOutput).2.isDirectory (locationOf ["out", "gw"]) = true ∧
    ((Effect.exec staleSteps staleOutput).2.write default (locationOf ["out", "gw.fmu"])).isSome =
      true := by
  obtain ⟨gw, out, bin, tgt, src, lib⟩ := locate_stale
  obtain ⟨yaml, model, _, description, _⟩ := locate_staleYaml
  obtain ⟨noGw, noOut, noBin, noName, unix⟩ := nonempty_stale
  rw [staleSteps]
  simp only [makeLayout, mkdirAllAt, if_neg noGw, if_neg noOut, if_neg noBin, if_neg noName, gw,
    out, bin, copyBinaries, tgt, PackageArguments.src, src, stat, lib, unix, writeGatewayFiles,
    writeYaml, writeXml, removeAt, yaml, model, description]
  decide +kernel

theorem buildFmuPackage_staleOutput : ∃ final,
    Effect.exec (buildFmuPackage rootDirectory staleArguments dataLibrary 4) staleOutput =
      (.ok (), final) := by
  obtain ⟨succeeds, directory, creatable⟩ := staleSteps_ok
  obtain ⟨_, out, _⟩ := locate_stale
  obtain ⟨_, _, sim, _, fmu⟩ := locate_staleYaml
  have source : locate rootDirectory staleArguments.simpath = locationOf ["sim"] := by decide
  rcases ran : Effect.exec staleSteps staleOutput with ⟨result, fs⟩
  rw [ran] at succeeds directory creatable
  cases result with
  | error e => cases succeeds
  | ok _ =>
      obtain ⟨_, laidOut, layout, rest⟩ := Effect.exec_bind_eq_ok.mp ran
      obtain ⟨_, copied, binaries, rest⟩ := Effect.exec_bind_eq_ok.mp rest
      obtain ⟨_, copying, gateway, rest⟩ := Effect.exec_bind_eq_ok.mp rest
      obtain ⟨_, copiedAll, copies, description⟩ := Effect.exec_bind_eq_ok.mp rest
      obtain ⟨created, create⟩ := Option.isSome_iff_exists.mp creatable
      have other : locationOf ["out", "gw"] ≠ locationOf ["out", "gw.fmu"] := by decide
      have there : stat rootDirectory created staleArguments.fmuOutDir = some .directory := by
        rw [stat, if_neg nonempty_stale.2.1, out, lookup_write create other]
        exact isDirectory_iff.mp directory
      rw [← fmu] at create
      obtain ⟨final, zipped, _⟩ := exec_zip dataLibrary create there
      refine ⟨final, ?_⟩
      have named : staleArguments.simpath ≠ "" := by decide
      rw [buildFmuPackage, Effect.exec_bind_ok layout, Effect.exec_bind_ok binaries,
        Effect.exec_bind_ok gateway, packResources, if_neg named, source, sim,
        Effect.exec_bind_ok copies, Effect.exec_bind_ok description]
      exact zipped

theorem buildFmuPackage_upToDate_iff_stale : ∃ final laidOut copying,
    PackageRun rootDirectory staleArguments dataLibrary 4 staleOutput laidOut copying final ∧
      (UpToDate rootDirectory staleArguments laidOut copying final ↔
        Fresh rootDirectory staleArguments laidOut copying) := by
  obtain ⟨final, ran⟩ := buildFmuPackage_staleOutput
  exact ⟨final, buildFmuPackage_upToDate_iff ran⟩

theorem buildFmuPackage_stale : ∃ laidOut copying final,
    PackageRun rootDirectory staleArguments dataLibrary 4 staleOutput laidOut copying final ∧
      ¬ UpToDate rootDirectory staleArguments laidOut copying final := by
  obtain ⟨final, ran⟩ := buildFmuPackage_staleOutput
  obtain ⟨laidOut, copying, run⟩ := buildFmuPackage_ok_iff.mp ran
  refine ⟨laidOut, copying, final, run, ?_⟩
  obtain ⟨yaml, model, sim, _⟩ := locate_staleYaml
  have source : locate rootDirectory staleArguments.simpath = locationOf ["sim"] := by decide
  have other : Data.text "old" ≠ Data.text "new" := by
    intro same
    exact absurd (Data.text.inj same) (by decide)
  refine run.not_upToDate (r := locationOf ["model", "gw", "data", "model.yaml"]) other rfl
    ?_ ?_ ?_ ?_
  · rw [model, source]
    decide
  · rw [sim]
    rfl
  · rw [sim, yaml]
    decide
  · rw [sim, model]
    decide

end DseFmi.Generate
