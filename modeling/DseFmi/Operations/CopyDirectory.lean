import DseFmi.Library.Effect
import DseFmi.Library.FileSystem

/-!
# Copying a directory

A file that is there already is not copied. The recursion reads one directory tree while it
writes into another one; it runs with a bound on its depth, and a run that exceeds the bound
says so.
-/

namespace DseFmi.Operations

open DseFmi.Library

inductive CopyError where
  | failed
  | outOfFuel
  deriving DecidableEq, Repr

/-- A computation on the files; the default content is that of an empty file. -/
abbrev Files (N Content α : Type) [LinearOrder N] := Effect CopyError (FileSystem N Content) α

variable {N Content : Type} [LinearOrder N]

def change (f : FileSystem N Content → Option (FileSystem N Content)) : Files N Content Unit :=
  .of fun fs =>
    match f fs with
    | some fs => (.ok (), fs)
    | none => (.error .failed, fs)

/-- What a file holds; a directory or a missing file cannot be read. -/
def readFile (p : Location N) : Files N Content Content :=
  .of fun fs =>
    match fs.lookup p with
    | some (.file content) => (.ok content, fs)
    | _ => (.error .failed, fs)

/-- `Copy`; the destination is created before the source is opened. -/
def copy [Inhabited Content] (srcFile destFile : Location N) : Files N Content Unit := do
  if ((← get).lookup destFile).isSome then return ()
  else do
    change fun fs => fs.write default destFile
    let content ← readFile srcFile
    change fun fs => fs.write content destFile

/-- The directories for a destination that does not exist; a destination below a file cannot
be looked at. -/
def ensureDirectory (dest : Location N) : Files N Content Unit := do
  let fs ← get
  if fs.lookup dest = none ∧ fs.blocked dest = false then change fun fs => fs.mkdirAll dest

def copyEntry [Inhabited Content] (copyDirectory : Location N → Location N → Files N Content Unit)
    (scrDir dest : Location N) (name : N) : Files N Content Unit := do
  match (← get).lookup (name :: scrDir) with
  | none => throw .failed
  | some .directory =>
      ensureDirectory (name :: dest)
      copyDirectory (name :: scrDir) (name :: dest)
  | some (.file _) => copy (name :: scrDir) (name :: dest)

def copyDirectory [Inhabited Content] : Nat → Location N → Location N → Files N Content Unit
  | 0, _, _ => throw .outOfFuel
  | fuel + 1, scrDir, dest => do
      let fs ← get
      if fs.lookup scrDir = some .directory then
        forM (fs.readDir scrDir) (copyEntry (copyDirectory fuel) scrDir dest)
      else throw .failed

end DseFmi.Operations
