import DseFmi.Generate.FmuPackageResult
import DseFmi.Operations.CopyInside

/-!
# The simulation in an FMU

Both generators copy the directory of the simulation into the FMU. Only the gateway compares
its two paths, and only for equality, so that the FMU may be built inside the simulation.
-/

namespace DseFmi.Generate

open DseFmi.Library DseFmi.Operations FileSystem

/-- The generators, the second one with the file in which it has found the stack. -/
inductive Generator where
  | gateway
  | modelC (stackFile : String)
  deriving DecidableEq, Repr

structure SimulationPaths where
  simpath : String
  outdir : String
  name : String
  deriving DecidableEq, Repr

def SimulationPaths.resourcesSim (c : SimulationPaths) : String :=
  joinPath [joinPath [c.outdir, c.name], "resources", "sim"]

def acceptsPaths : Generator → SimulationPaths → Bool
  | .gateway, c => cleanPath c.simpath ≠ cleanPath c.outdir
  | .modelC stackFile, c => stackFile = joinPath [c.simpath, "data/simulation.yaml"]

variable {Content : Type} [Inhabited Content] (cwd : WorkingDirectory)

/-- The copy of the simulation; there is no directory at the empty path. -/
def copySimulation (generator : Generator) (c : SimulationPaths) (fuel : Nat) :
    Files Name Content Unit :=
  if acceptsPaths generator c then
    if c.simpath = "" then throw .failed
    else copyDirectory fuel (locate cwd c.simpath) (locate cwd c.resourcesSim)
  else throw .failed

/-- The copy ends, with exactly the files of the simulation. -/
def CopiesSimulation (generator : Generator) (c : SimulationPaths) (fs : FileSystem Name Content) :
    Prop :=
  ∃ fuel fs', Effect.exec (copySimulation cwd generator c fuel) fs = (.ok (), fs') ∧
    (∀ r content, fs.lookup (r ++ locate cwd c.simpath) = some (.file content) →
      fs'.lookup (r ++ locate cwd c.resourcesSim) = some (.file content)) ∧
    ∀ q content, fs'.lookup q = some (.file content) → fs.lookup q = some (.file content) ∨
      ∃ r, q = r ++ locate cwd c.resourcesSim ∧
        fs.lookup (r ++ locate cwd c.simpath) = some (.file content)

variable {cwd} {generator : Generator} {c : SimulationPaths}

theorem copiesSimulation_iff {fs : FileSystem Name Content}
    (accepted : acceptsPaths generator c = true) :
    CopiesSimulation cwd generator c fs ↔
      c.simpath ≠ "" ∧ CopiesExactly fs (locate cwd c.simpath) (locate cwd c.resourcesSim) := by
  have runs : ∀ fuel, (copySimulation cwd generator c fuel : Files Name Content Unit) =
      if c.simpath = "" then throw .failed
      else copyDirectory fuel (locate cwd c.simpath) (locate cwd c.resourcesSim) :=
    fun fuel => if_pos accepted
  constructor
  · rintro ⟨fuel, fs', ran, exact⟩
    rw [runs] at ran
    split at ran
    · cases congrArg Prod.fst ran
    next named =>
      exact ⟨named, fuel, fs', ran, exact⟩
  · rintro ⟨named, fuel, fs', ran, exact⟩
    refine ⟨fuel, fs', ?_, exact⟩
    rw [runs, if_neg named]
    exact ran

/-- With the FMU in an entry of the simulation the copy exceeds each bound on its depth. -/
theorem copySimulation_outOfFuel {fs : FileSystem Name Content} {name : Name}
    (accepted : acceptsPaths generator c = true) (named : c.simpath ≠ "")
    (fresh : IsFresh fs (locate cwd c.resourcesSim))
    (inside : name :: locate cwd c.simpath <:+ locate cwd c.resourcesSim) (fuel : Nat) :
    (Effect.exec (copySimulation cwd generator c fuel) fs).1 = .error .outOfFuel := by
  obtain ⟨w, way⟩ := inside
  rw [copySimulation, if_pos accepted, if_neg named]
  rw [← way] at fresh ⊢
  exact copyDirectory_outOfFuel fuel fresh

/-- A copy that may begin has exactly the files of the simulation in it, and there is no other
such copy of a simulation that is not below its own place in the FMU. Into a fresh place, as
the second generator makes it, this is so for any simulation. -/
theorem copiesSimulation_of_accepted {fs : FileSystem Name Content}
    (accepted : acceptsPaths generator c = true) :
    (c.simpath ≠ "" ∧ Copyable fs (locate cwd c.simpath) (locate cwd c.resourcesSim) →
      CopiesSimulation cwd generator c fs) ∧
    ((∀ q, q ≠ [] → locate cwd c.simpath ≠ q ++ locate cwd c.resourcesSim) →
      CopiesSimulation cwd generator c fs →
      c.simpath ≠ "" ∧ Copyable fs (locate cwd c.simpath) (locate cwd c.resourcesSim)) ∧
    (IsFresh fs (locate cwd c.resourcesSim) →
      (CopiesSimulation cwd generator c fs ↔
        c.simpath ≠ "" ∧ fs.lookup (locate cwd c.simpath) = some .directory ∧
          ∀ name, ¬ name :: locate cwd c.simpath <:+ locate cwd c.resourcesSim)) := by
  rw [copiesSimulation_iff accepted]
  refine ⟨?_, ?_, ?_⟩
  · rintro ⟨named, copyable⟩
    exact ⟨named, copiesExactly_of_copyable copyable⟩
  · rintro outside ⟨named, exact⟩
    exact ⟨named, copyable_of_copiesExactly outside exact⟩
  · intro fresh
    rw [fresh.copiesExactly_iff]

def simulationPaths (outdir : String) : SimulationPaths where
  simpath := "/sim"
  outdir := outdir
  name := "fmu"

/-- A simulation, and an FMU in a directory as the second generator leaves it for the copy. -/
def simulationFiles (outdir : List String) : FileSystem Name Data :=
  let fmu := outdir ++ ["fmu"]
  let directories := [["sim"], ["sim", "data"], outdir, fmu, fmu ++ ["resources"],
    fmu ++ ["resources", "sim"], fmu ++ ["binaries"], fmu ++ ["binaries", "linux64"]]
  let files := [["sim", "data", "simulation.yaml"],
    fmu ++ ["binaries", "linux64", "fmi2modelcfmu.so"],
    fmu ++ ["binaries", "linux64", "libmodelc.so"]]
  ofNodes (directories.map (fun p => (locationOf p, .directory)) ++
    files.map (fun p => (locationOf p, .file (.text "content"))))

theorem locate_simulation :
    locate rootDirectory "/sim" = locationOf ["sim"] ∧
    locate rootDirectory (simulationPaths "/out").resourcesSim =
      locationOf ["out", "fmu", "resources", "sim"] ∧
    locate rootDirectory (simulationPaths "/sim/out").resourcesSim =
      locationOf ["sim", "out", "fmu", "resources", "sim"] := by
  decide +kernel

theorem isFresh_beside : IsFresh (simulationFiles ["out"])
    (locate rootDirectory (simulationPaths "/out").resourcesSim) := by
  rw [locate_simulation.2.1]
  exact isFresh_of_keys (by decide +kernel) (by decide +kernel)

theorem isFresh_inside : IsFresh (simulationFiles ["sim", "out"])
    (locate rootDirectory (simulationPaths "/sim/out").resourcesSim) := by
  rw [locate_simulation.2.2]
  exact isFresh_of_keys (by decide +kernel) (by decide +kernel)

theorem copiesSimulation_beside :
    acceptsPaths .gateway (simulationPaths "/out") = true ∧
      CopiesSimulation rootDirectory .gateway (simulationPaths "/out")
        (simulationFiles ["out"]) := by
  have accepted : acceptsPaths .gateway (simulationPaths "/out") = true := by decide +kernel
  refine ⟨accepted, ((copiesSimulation_of_accepted accepted).2.2 isFresh_beside).mpr ?_⟩
  refine ⟨by decide, ?_, ?_⟩
  · rw [simulationPaths, locate_simulation.1]
    decide +kernel
  · rw [locate_simulation.2.1, simulationPaths, locate_simulation.1]
    intro name below
    exact absurd ((List.suffix_cons name _).trans below) (by decide +kernel)

/-- Both generators accept an output directory in the simulation, where the copy never ends. -/
theorem copySimulation_inside :
    acceptsPaths .gateway (simulationPaths "/sim/out") = true ∧
    acceptsPaths (.modelC "/sim/data/simulation.yaml") (simulationPaths "/sim/out") = true ∧
    ∀ generator, acceptsPaths generator (simulationPaths "/sim/out") = true →
      (∀ fuel, (Effect.exec
        (copySimulation rootDirectory generator (simulationPaths "/sim/out") fuel)
        (simulationFiles ["sim", "out"])).1 = .error .outOfFuel) ∧
      ¬ CopiesSimulation rootDirectory generator (simulationPaths "/sim/out")
        (simulationFiles ["sim", "out"]) := by
  refine ⟨by decide +kernel, by decide +kernel, ?_⟩
  intro generator accepted
  have inside : nameOf "out" :: locate rootDirectory (simulationPaths "/sim/out").simpath <:+
      locate rootDirectory (simulationPaths "/sim/out").resourcesSim := by
    rw [locate_simulation.2.2, simulationPaths, locate_simulation.1]
    decide +kernel
  have exceeds := copySimulation_outOfFuel accepted (by decide) isFresh_inside inside
  refine ⟨exceeds, ?_⟩
  rintro ⟨fuel, fs', ran, _⟩
  have wrong := exceeds fuel
  rw [ran] at wrong
  cases wrong

end DseFmi.Generate
