import DseFmi.Library.FileSystem
import DseFmi.Library.PathsBelow
import DseFmi.Operations.Unzip
import Mathlib.Data.String.Basic

/-!
# Paths of files

A path names a location by its text: relative paths belong to the working directory. The
files answer the calls of the operating system.
-/

namespace DseFmi.Operations

open DseFmi.Library

abbrev Name := { e : String // IsName e }

instance (e : String) : Decidable (IsName e) :=
  decidable_of_iff (e ≠ "" ∧ e ≠ "." ∧ e ≠ ".." ∧ '/' ∉ e.toList)
    ⟨fun ⟨nonempty, current, parent, plain⟩ => ⟨nonempty, current, parent, plain⟩,
      fun named => ⟨named.nonempty, named.current, named.parent, named.plain⟩⟩

theorem isRooted_absPath (cwd : WorkingDirectory) (p : String) :
    isRooted (absPath cwd.path p) = true := by
  rw [absPath]
  split
  next rooted =>
    exact (isRooted_cleanPath p).trans rooted
  · exact isRooted_joinPath cwd.rooted p

theorem isName_absPath (cwd : WorkingDirectory) (p : String) :
    ∀ e ∈ (parsePath (absPath cwd.path p)).elements, IsName e := by
  have clean := clean_parsePath (absPath cwd.path p)
  rw [isRooted_absPath] at clean
  exact clean.isName

def locate (cwd : WorkingDirectory) (p : String) : Location Name :=
  ((parsePath (absPath cwd.path p)).elements.pmap Subtype.mk (isName_absPath cwd p)).reverse

theorem map_locate (cwd : WorkingDirectory) (p : String) :
    (locate cwd p).map Subtype.val = (parsePath (absPath cwd.path p)).elements.reverse := by
  rw [locate, List.map_reverse, List.map_pmap, List.pmap_eq_map, List.map_id']

theorem length_locate (cwd : WorkingDirectory) (p : String) :
    (locate cwd p).length = (parsePath (absPath cwd.path p)).elements.length := by
  rw [locate, List.length_reverse, List.length_pmap]

theorem locate_eq {cwd : WorkingDirectory} {p : String} {l : Location Name}
    (same : (parsePath (absPath cwd.path p)).elements.reverse = l.map Subtype.val) :
    locate cwd p = l := by
  apply List.map_injective_iff.mpr Subtype.val_injective
  rw [map_locate, same]

/-- A name joined to a path names an entry of its location. -/
theorem locate_joinPath (cwd : WorkingDirectory) (p : String) (name : Name) :
    locate cwd (joinPath [p, name.val]) = name :: locate cwd p := by
  apply locate_eq
  rw [elements_absPath_joinPath cwd.rooted p name.property, List.reverse_append, List.map_cons,
    map_locate]
  rfl

/-- The text of some elements, the first one first. -/
def relName (names : List Name) : String := joinParts (names.map Subtype.val)

theorem isName_of_mem_map {names : List Name} : ∀ e ∈ names.map Subtype.val, IsName e := by
  intro e member
  obtain ⟨name, _, rfl⟩ := List.mem_map.mp member
  exact name.property

theorem map_val_ne_nil {names : List Name} (below : names ≠ []) :
    names.map Subtype.val ≠ [] := fun none => below (List.map_eq_nil_iff.mp none)

theorem locate_rooted {cwd : WorkingDirectory} {base : String} {names : List Name}
    (rooted : isRooted base = true) (below : names ≠ []) :
    locate cwd (joinPath [base, relName names]) = names.reverse ++ locate cwd base := by
  apply locate_eq
  have joined := parsePath_joinPath_names rooted (map_val_ne_nil below) isName_of_mem_map
  have absolute : isRooted (joinPath [base, relName names]) = true :=
    isRooted_joinPath rooted _
  have same : ∀ p, isRooted p = true →
      (parsePath (absPath cwd.path p)).elements = (parsePath p).elements := by
    intro p rooted
    rw [absPath, if_pos rooted, parsePath_cleanPath]
  rw [same _ absolute, List.map_append, map_locate, same _ rooted, relName, joined,
    List.reverse_append, List.map_reverse]

end DseFmi.Operations
