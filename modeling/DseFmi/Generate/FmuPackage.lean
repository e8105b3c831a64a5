import DseFmi.Operations.CopyDirectory
import DseFmi.Operations.Zip

/-!
# Building the package of a gateway FMU

The directories of the FMU are made in the output directory, which may hold what earlier runs
have left there. The files of the gateway are written into the simulation directory, which
is then copied into the FMU.
-/

namespace DseFmi.Generate

open DseFmi.Library DseFmi.Operations

/-- `strings.Cut`: the text before a separator, and what is after it if it is found. -/
def cut (s : String) (sep : Char) : String × Option String :=
  match s.toList.dropWhile (· ≠ sep) with
  | [] => (s, none)
  | _ :: after => (String.ofList (s.toList.takeWhile (· ≠ sep)), some (String.ofList after))

/-- The name of the directory of the binaries; empty for other platforms and versions. -/
def getFmuBinaryDirName (platform fmiVersion : String) : String :=
  match cut platform '-' with
  | (_, none) => ""
  | (os, some arch) =>
      if os = "linux" then
        if arch = "amd64" then
          if fmiVersion = "2" then "linux64" else if fmiVersion = "3" then "x86_64-linux" else ""
        else if arch = "x86" ∨ arch = "i386" then
          if fmiVersion = "2" then "linux32" else if fmiVersion = "3" then "x86-linux" else ""
        else ""
      else if os = "windows" then
        if arch = "x64" then
          if fmiVersion = "2" then "win64" else if fmiVersion = "3" then "x86_64-windows" else ""
        else if arch = "x86" then
          if fmiVersion = "2" then "win32" else if fmiVersion = "3" then "x86-windows" else ""
        else ""
      else ""

/-- Whether the part before the first `-` of a platform is a name. -/
def platformOs (platform os : String) : Bool :=
  match cut platform '-' with
  | (_, none) => false
  | (name, some _) => name = os

def libExtension (platform : String) : String :=
  if platformOs platform "windows" then ".dll" else ".so"

def getFmuLibPath (packagePath modelIdentifier platform : String) : String :=
  let libpath := if platformOs platform "linux" || platformOs platform "windows" then "lib" else ""
  joinPath [packagePath, libpath, modelIdentifier ++ libExtension platform]

def getFmuBinPath (fmuBinPath modelIdentifier platform : String) : String :=
  joinPath [fmuBinPath, modelIdentifier ++ libExtension platform]

example : getFmuLibPath "/package" "../../lib/libmodelc" "windows-x64" = "/lib/libmodelc.dll" := by
  decide

section Files

variable {Content : Type} (cwd : WorkingDirectory)

/-- `os.MkdirAll`; there is no directory at the empty path. -/
def mkdirAllAt (path : String) : Files Name Content Unit :=
  if path = "" then throw .failed else change fun fs => fs.mkdirAll (locate cwd path)

/-- `os.Remove`, whose error is ignored. -/
def removeAt (path : String) : Files Name Content Unit :=
  .of fun fs => (.ok (), (fs.remove (locate cwd path)).getD fs)

/-- Write a document that may have no encoding, behind the old content or in place of it. -/
def writeYaml [Append Content] (doc : Option Content) (path : String) (append : Bool) :
    Files Name Content Unit :=
  match doc with
  | none => throw .failed
  | some content =>
      change fun fs =>
        match append, fs.lookup (locate cwd path) with
        | true, some (.file old) => fs.write (old ++ content) (locate cwd path)
        | _, _ => fs.write content (locate cwd path)

def writeXml (doc : Option Content) (path : String) : Files Name Content Unit :=
  match doc with
  | none => throw .failed
  | some content => change fun fs => fs.write content (locate cwd path)

end Files

/-- The fields of the command that the package is built from. A document has no encoding when
its encoder fails; those of the signal groups begin with a separator. -/
structure PackageArguments (Content : Type) where
  simpath : String
  outdir : String
  name : String
  platform : String
  fmiVersion : String
  fmiPackage : String
  modelIdentifier : String
  signalGroupFile : List (Option Content)
  modelFile : Option Content
  fmuXml : Option Content

namespace PackageArguments

variable {Content : Type} (c : PackageArguments Content)

def gwFilePath : String := joinPath [c.simpath, "model", c.name, "data"]

def fmuOutDir : String := joinPath [c.outdir, c.name]

def fmuBinPath : String :=
  joinPath [c.fmuOutDir, "binaries", getFmuBinaryDirName c.platform c.fmiVersion]

/-- The library of the FMI package, without the prefix when there is none with it. -/
def src (cwd : WorkingDirectory) (fs : FileSystem Name Content) : String :=
  let src := getFmuLibPath c.fmiPackage ("lib" ++ c.modelIdentifier) c.platform
  if (stat cwd fs src).isSome then src
  else getFmuLibPath c.fmiPackage c.modelIdentifier c.platform

def tgt : String := getFmuBinPath c.fmuBinPath c.modelIdentifier c.platform

def modelYamlPath : String := joinPath [c.gwFilePath, "model.yaml"]

def fmuYaml : String := joinPath [c.gwFilePath, "fmu.yaml"]

def resourcesSim : String := joinPath [c.fmuOutDir, "resources", "sim"]

def fmuModelDescriptionFilename : String := joinPath [c.fmuOutDir, "modelDescription.xml"]

def fmuFilename : String := c.fmuOutDir ++ ".fmu"

end PackageArguments

variable {Content : Type} (cwd : WorkingDirectory) (c : PackageArguments Content)

def makeLayout : Files Name Content Unit := do
  mkdirAllAt cwd c.gwFilePath
  mkdirAllAt cwd c.fmuOutDir
  if getFmuBinaryDirName c.platform c.fmiVersion = "" then throw .failed
  else mkdirAllAt cwd c.fmuBinPath

def copyBinaries [Inhabited Content] : Files Name Content Unit := do
  let fs ← get
  copy (locate cwd (c.src cwd fs)) (locate cwd c.tgt)
  if platformOs c.platform "windows" then
    copy (locate cwd (getFmuLibPath c.fmiPackage "../../lib/libmodelc" c.platform))
      (locate cwd (getFmuBinPath c.fmuBinPath "libmodelc" c.platform))

def writeGatewayFiles [Append Content] : Files Name Content Unit := do
  removeAt cwd c.fmuYaml
  forM c.signalGroupFile fun sg => writeYaml cwd sg c.fmuYaml true
  writeYaml cwd c.modelFile c.modelYamlPath false

/-- The copy of the simulation directory, the model description and the archive. -/
def packResources [Inhabited Content] (library : ZipLibrary Content) (fuel : Nat) :
    Files Name Content Unit :=
  if c.simpath = "" then throw .failed
  else do
    copyDirectory fuel (locate cwd c.simpath) (locate cwd c.resourcesSim)
    writeXml cwd c.fmuXml c.fmuModelDescriptionFilename
    zip library cwd c.fmuOutDir c.fmuFilename

def buildFmuPackage [Inhabited Content] [Append Content] (library : ZipLibrary Content)
    (fuel : Nat) : Files Name Content Unit := do
  makeLayout cwd c
  copyBinaries cwd c
  writeGatewayFiles cwd c
  packResources cwd c library fuel

end DseFmi.Generate
