import DseFmi.Library.Effect
import DseFmi.Library.LexicalPath

/-!
# Unpacking an archive

The operating system answers every call as it likes. Each path that a call opens or creates
is recorded.
-/

namespace DseFmi.Operations

open DseFmi.Library

structure ZipFile (Content : Type) where
  name : String
  isDir : Bool
  content : Content

/-- The calls of the operating system, each with its outcome and the world after it. -/
structure OperatingSystem (Content World : Type) where
  /-- Whether there is a directory at a path, if there is anything that can be looked at. -/
  stat : World → String → Option Bool
  mkdir : World → String → Bool × World
  openFile : World → String → Bool × World
  copy : World → ZipFile Content → String → Bool × World

/-- A path that is created as a directory, with what was found there before, or opened as a
file. -/
inductive Touch where
  | created (path : String) (found : Option Bool)
  | opened (path : String)
  deriving DecidableEq, Repr

structure Machine (World : Type) where
  world : World
  touched : List Touch

inductive UnzipError where
  | failed
  | illegalFilePath (name : String)
  deriving DecidableEq, Repr

structure WorkingDirectory where
  path : String
  rooted : isRooted path = true

variable {Content World : Type}

abbrev Unpack (World α : Type) := Effect UnzipError (Machine World) α

section Calls

variable (os : OperatingSystem Content World)

/-- A call that touches paths; a call that did not succeed is an error. -/
def call (touched : List Touch) (outcome : World → Bool × World) : Unpack World Unit :=
  .of fun m =>
    let result := outcome m.world
    (if result.1 then .ok () else .error .failed, ⟨result.2, m.touched ++ touched⟩)

/-- `os.Mkdir`, where a directory that is there after all is no error. -/
def mkdir (path : String) (found : Option Bool) : Unpack World Unit :=
  call [.created path found] fun world =>
    let result := os.mkdir world path
    (result.1 || os.stat result.2 path = some true, result.2)

/-- The text of the elements, the last one first. -/
def pathOf (elements : List String) : String := LexPath.text ⟨true, elements.reverse⟩

/-- `os.MkdirAll` for a path by its elements, the last one first. -/
def mkdirAllOf : List String → Unpack World Unit
  | [] => do
      match os.stat (← get).world (pathOf []) with
      | some true => return ()
      | some false => throw .failed
      | none => mkdir os (pathOf []) none
  | e :: elements => do
      match os.stat (← get).world (pathOf (e :: elements)) with
      | some true => return ()
      | some false => throw .failed
      | none =>
          if elements ≠ [] then mkdirAllOf elements
          mkdir os (pathOf (e :: elements)) none

def mkdirAll (path : String) : Unpack World Unit := mkdirAllOf os (parsePath path).elements.reverse

/-- Whether a relative path leads out of its base. -/
def leaves (rel : Option String) : Bool :=
  match rel with
  | none => true
  | some rel => Climbs rel

def entryPath (destAbs : String) (name : String) : String :=
  joinPath [destAbs, cleanPath name]

def unzipFile (destAbs : String) (file : ZipFile Content) : Unpack World Unit := do
  let filePath := entryPath destAbs file.name
  if leaves (relPath destAbs filePath) then throw (.illegalFilePath file.name)
  else if file.isDir then mkdirAll os filePath
  else do
    mkdirAll os (dirPath filePath)
    call [.opened filePath] fun world => os.openFile world filePath
    call [] fun world => os.copy world file filePath

end Calls

/-- `filepath.Abs`; the working directory may be unknown. -/
def absDest (cwd : Option WorkingDirectory) (dest : String) : Option String :=
  if isRooted dest then some (cleanPath dest)
  else cwd.map fun cwd => joinPath [cwd.path, dest]

/-- `Unzip` for an archive that is opened, or else has no files to read. -/
def unzip (os : OperatingSystem Content World) (cwd : Option WorkingDirectory) (dest : String)
    (archive : Option (List (ZipFile Content))) : Unpack World Unit :=
  match archive with
  | none => throw .failed
  | some files =>
      match absDest cwd dest with
      | none => throw .failed
      | some destAbs => forM files (unzipFile os destAbs)

end DseFmi.Operations
