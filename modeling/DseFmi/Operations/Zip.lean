import DseFmi.Library.FileTree
import DseFmi.Operations.CopyDirectory
import DseFmi.Operations.Locate

/-!
# Packing a directory

The walk visits a directory before its entries, these in the order of their names. The root
is left out by comparing the last element of each path with that of the root.
-/

namespace DseFmi.Operations

open DseFmi.Library

variable {Content : Type} [Inhabited Content]

section Walk

variable (cwd : WorkingDirectory) (fs : FileSystem Name Content)

omit [Inhabited Content] in
/-- What there is at a path; nothing is at the empty path. -/
def stat (p : String) : Option (Node Content) :=
  if p = "" then none else fs.lookup (locate cwd p)

/-- The paths that `filepath.Walk` visits, with what can be looked at there; the bound on the
depth is one more error. -/
def walk : Nat → String → List (String × Option (Node Content))
  | 0, path => [(path, none)]
  | fuel + 1, path =>
      match fs.lookup (locate cwd path) with
      | some .directory =>
          (path, some .directory) :: (fs.readDir (locate cwd path)).flatMap fun name =>
            walk fuel (joinPath [path, name.val])
      | info => [(path, info)]

end Walk

/-- The entry of an archive for a node; the name of a directory ends with a separator. -/
def zipFile (name : String) : Node Content → ZipFile Content
  | .directory => { name := name ++ "/", isDir := true, content := default }
  | .file content => { name := name, isDir := false, content := content }

/-- The name of an entry: the way from the source, or the last element when the source is a
file. -/
def headerName (source baseDir path : String) : Except CopyError String :=
  if baseDir ≠ "" then
    match relPath source path with
    | none => throw .failed
    | some name => return name
  else return basePath path

def zipVisit (source baseDir : String) (visit : String × Option (Node Content)) :
    Except CopyError (List (ZipFile Content)) :=
  match visit.2 with
  | none => throw .failed
  | some info =>
      if basePath visit.1 = baseDir then return []
      else do
        let name ← headerName source baseDir visit.1
        return [zipFile name info]

def zipEntries (cwd : WorkingDirectory) (source : String) (fs : FileSystem Name Content) :
    Except CopyError (List (ZipFile Content)) := do
  match stat cwd fs source with
  | none => throw .failed
  | some sourceInfo =>
      let baseDir := match sourceInfo with
        | .directory => basePath source
        | .file _ => ""
      let files ← (walk cwd fs fs.height source).mapM (zipVisit source baseDir)
      return files.flatten

structure ZipLibrary (Content : Type) where
  store : List (ZipFile Content) → Content
  entries : Content → Option (List (ZipFile Content))
  faithful : ∀ files, entries (store files) = some files

/-- `Zip`; the archive is created first and holds its entries at the end. -/
def zip (library : ZipLibrary Content) (cwd : WorkingDirectory) (source destination : String) :
    Files Name Content Unit := do
  change fun fs => fs.write default (locate cwd destination)
  match zipEntries cwd source (← get) with
  | .error e => throw e
  | .ok files => change fun fs => fs.write (library.store files) (locate cwd destination)

end DseFmi.Operations
