import DseFmi.Fmu.Data

/-!
# Debug logging

The importer chooses the categories of the messages it gets. The generator advertises a list
of categories, and the FMU has a table of its own with a flag for each.
-/

namespace DseFmi.Generate

structure Category where
  name : String
  description : String
  deriving DecidableEq, Repr

/-- `LogCategories.LogCategory` of a model description. -/
def logCategory : List Category :=
  [⟨"All", "Log all messages"⟩, ⟨"Fatal", "Log fatal messages"⟩,
    ⟨"Error", "Log error messages"⟩, ⟨"Warning", "Log warning messages"⟩,
    ⟨"Info", "Log informational messages"⟩, ⟨"Debug", "Log debug messages"⟩]

end DseFmi.Generate

namespace DseFmi.Fmu

open DseFmi.Generate

def categoryFlag (name : String) : BitVec 16 :=
  ((fmiLogCategoryMap.find? fun entry => entry.1 = name).map Prod.snd).getD 0

def fmi2SetDebugLogging (fmu : FmuInstanceData) (loggingOn : Bool) (categories : List String) :
    FmuInstanceData :=
  let fmu := { fmu with logCategories := 0, logEnabled := loggingOn }
  if loggingOn = false then fmu
  else
    { fmu with
      logCategories := categories.foldl (fun mask name => mask ||| categoryFlag name) 0 }

structure SetDebugLogging where
  loggingOn : Bool
  categories : List String

def setDebugLogging (fmu : FmuInstanceData) (calls : List SetDebugLogging) : FmuInstanceData :=
  calls.foldl (fun fmu call => fmi2SetDebugLogging fmu call.loggingOn call.categories) fmu

def ReachesLogger (fmu : FmuInstanceData) (status : Nat) (category message : String) : Prop :=
  (fmuLog fmu status category message).logged = fmu.logged ++ [⟨status, category, message⟩]

def categoryBits : List (String × Nat) :=
  [("Trace", 0), ("Debug", 1), ("Info", 2), ("Error", 3), ("Fatal", 4), ("All", 5)]

theorem categoryFlag_of_mem {name : String} {bit : Nat} (listed : (name, bit) ∈ categoryBits) :
    categoryFlag name = BitVec.twoPow 16 bit := by
  simp only [categoryBits, List.mem_cons, Prod.mk.injEq, List.not_mem_nil, or_false] at listed
  rcases listed with ⟨rfl, rfl⟩ | ⟨rfl, rfl⟩ | ⟨rfl, rfl⟩ | ⟨rfl, rfl⟩ | ⟨rfl, rfl⟩ | ⟨rfl, rfl⟩ <;>
    decide

/-- A name that the table does not have selects nothing. -/
theorem categoryFlag_unknown {name : String} (unknown : ∀ bit, (name, bit) ∉ categoryBits) :
    categoryFlag name = 0 := by
  have absent : fmiLogCategoryMap.find? (fun entry => entry.1 = name) = none := by
    simp only [categoryBits, List.mem_cons, Prod.mk.injEq, List.not_mem_nil, or_false] at unknown
    simp only [fmiLogCategoryMap, List.find?_eq_none, List.mem_cons, List.not_mem_nil, or_false,
      decide_eq_true_eq]
    rintro entry (rfl | rfl | rfl | rfl | rfl | rfl) rfl
    · exact unknown 0 (by simp)
    · exact unknown 1 (by simp)
    · exact unknown 2 (by simp)
    · exact unknown 3 (by simp)
    · exact unknown 4 (by simp)
    · exact unknown 5 (by simp)
  rw [categoryFlag, absent]
  rfl

theorem categoryBits_inj : ∀ entry ∈ categoryBits, ∀ other ∈ categoryBits,
    entry.2 < 16 ∧ (other.2 = entry.2 ↔ other.1 = entry.1) := by
  decide

theorem getLsbD_categoryFlag {name : String} {bit : Nat} (listed : (name, bit) ∈ categoryBits)
    (other : String) : (categoryFlag other).getLsbD bit = true ↔ other = name := by
  by_cases known : ∃ index, (other, index) ∈ categoryBits
  · obtain ⟨index, there⟩ := known
    have inside : index < 16 := (categoryBits_inj (other, index) there _ there).1
    have same : index = bit ↔ other = name := (categoryBits_inj (name, bit) listed _ there).2
    rw [categoryFlag_of_mem there, BitVec.getLsbD_twoPow]
    simp [inside, same]
  · rw [categoryFlag_unknown (not_exists.mp known)]
    simp only [BitVec.ofNat_eq_ofNat, BitVec.getLsbD_zero, Bool.false_eq_true, false_iff]
    rintro rfl
    exact known ⟨bit, listed⟩

theorem getLsbD_foldl_categoryFlag {name : String} {bit : Nat}
    (listed : (name, bit) ∈ categoryBits) (categories : List String) (mask : BitVec 16) :
    (categories.foldl (fun mask name => mask ||| categoryFlag name) mask).getLsbD bit = true ↔
      mask.getLsbD bit = true ∨ name ∈ categories := by
  induction categories generalizing mask with
  | nil =>
      simp
  | cons other categories ih =>
      rw [List.foldl_cons, ih, BitVec.getLsbD_or, Bool.or_eq_true, getLsbD_categoryFlag listed,
        List.mem_cons, or_assoc, @eq_comm _ other]

theorem mask_and_categoryFlag_ne_zero_iff {name : String} {bit : Nat}
    (listed : (name, bit) ∈ categoryBits) (categories : List String) :
    categories.foldl (fun mask name => mask ||| categoryFlag name) 0 &&& categoryFlag name ≠ 0 ↔
      name ∈ categories := by
  have inside : bit < 16 := (categoryBits_inj (name, bit) listed _ listed).1
  have set := getLsbD_foldl_categoryFlag listed categories 0
  rw [categoryFlag_of_mem listed, BitVec.and_twoPow]
  by_cases member : name ∈ categories
  · rw [if_pos (set.mpr (.inr member))]
    simp only [member, iff_true]
    intro zero
    have bits := congrArg (fun mask => mask.getLsbD bit) zero
    simp [inside] at bits
  · rw [if_neg (by simpa [member] using set)]
    simp [member]

theorem reachesLogger_iff {fmu : FmuInstanceData} {status : Nat} {category message : String} :
    ReachesLogger fmu status category message ↔
      fmu.logEnabled = true ∧
        (fmu.logCategories &&& categoryFlag "All" ≠ 0 ∨
          fmu.logCategories &&& categoryFlag category ≠ 0) := by
  have all : categoryFlag "All" = fmiLogCategoryAll := by decide
  have flag : categoryFlag category =
    ((fmiLogCategoryMap.find? fun entry => entry.1 = category).map Prod.snd).getD 0 := rfl
  rw [ReachesLogger, fmuLog, all, ← flag]
  by_cases enabled : fmu.logEnabled = false
  · simp [enabled]
  · by_cases empty : fmu.logCategories = 0
    · simp [enabled, empty]
    · by_cases filtered : fmu.logCategories &&& fmiLogCategoryAll = 0 ∧
        fmu.logCategories &&& categoryFlag category = 0
      · rw [if_neg enabled, if_neg empty, if_pos filtered, filtered.1, filtered.2]
        simp
      · rw [if_neg enabled, if_neg empty, if_neg filtered]
        simp only [true_iff]
        exact ⟨Bool.not_eq_false _ ▸ enabled, not_and_or.mp filtered⟩

theorem setDebugLogging_concat (fmu : FmuInstanceData) (calls : List SetDebugLogging)
    (last : SetDebugLogging) :
    ∃ gmu, setDebugLogging fmu (calls ++ [last]) =
      fmi2SetDebugLogging gmu last.loggingOn last.categories := by
  refine ⟨setDebugLogging fmu calls, ?_⟩
  simp [setDebugLogging]

theorem reachesLogger_setDebugLogging_iff {fmu : FmuInstanceData} {loggingOn : Bool}
    {categories : List String} {status : Nat} {category message : String} :
    ReachesLogger (fmi2SetDebugLogging fmu loggingOn categories) status category message ↔
      loggingOn = true ∧ ("All" ∈ categories ∨
        (∃ bit, (category, bit) ∈ categoryBits) ∧ category ∈ categories) := by
  have all : ("All", 5) ∈ categoryBits := by decide
  rw [reachesLogger_iff]
  cases loggingOn with
  | false =>
      simp [fmi2SetDebugLogging]
  | true =>
      simp only [fmi2SetDebugLogging, Bool.true_eq_false, if_false, true_and,
        mask_and_categoryFlag_ne_zero_iff all]
      by_cases known : ∃ bit, (category, bit) ∈ categoryBits
      · obtain ⟨bit, listed⟩ := known
        rw [mask_and_categoryFlag_ne_zero_iff listed]
        simp only [(⟨bit, listed⟩ : ∃ bit, (category, bit) ∈ categoryBits), true_and]
      · rw [categoryFlag_unknown (not_exists.mp known)]
        simp [known]

theorem advertised_known_iff : ∀ category ∈ logCategory.map Category.name,
    (∃ bit, (category, bit) ∈ categoryBits) ↔ category ≠ "Warning" := by
  simp [logCategory, categoryBits]

/-- The importer gets the messages it asked for unless it asked for warnings, and not for all
messages. -/
theorem reachesLogger_advertised_iff (fmu : FmuInstanceData) (calls : List SetDebugLogging)
    (last : SetDebugLogging) (status : Nat) (category message : String)
    (advertised : category ∈ logCategory.map Category.name) :
    (ReachesLogger (setDebugLogging fmu (calls ++ [last])) status category message ↔
        last.loggingOn = true ∧ (category ∈ last.categories ∨ "All" ∈ last.categories)) ↔
      ¬ (category = "Warning" ∧ last.loggingOn = true ∧ "Warning" ∈ last.categories ∧
        "All" ∉ last.categories) := by
  obtain ⟨gmu, only⟩ := setDebugLogging_concat fmu calls last
  rw [only, reachesLogger_setDebugLogging_iff, advertised_known_iff category advertised]
  by_cases warning : category = "Warning"
  · subst warning
    simp only [ne_eq, not_true_eq_false, false_and, or_false, true_and]
    tauto
  · simp only [ne_eq, warning, not_false_eq_true, true_and, false_and, iff_true]
    tauto

/-- After two calls, the second with a name that nobody advertises. -/
theorem reachesLogger_info :
    ReachesLogger (setDebugLogging .null ([⟨false, []⟩] ++ [⟨true, ["unknown", "Info"]⟩])) 0 "Info"
        "Call model_runtime_create() ..." ↔
      true = true ∧ ("Info" ∈ ["unknown", "Info"] ∨ "All" ∈ ["unknown", "Info"]) := by
  have advertised : "Info" ∈ logCategory.map Category.name := by decide
  exact (reachesLogger_advertised_iff .null [⟨false, []⟩] ⟨true, ["unknown", "Info"]⟩ 0 "Info"
    "Call model_runtime_create() ..." advertised).mpr (by decide)

/-- A warning does not reach an importer that asked for warnings. -/
theorem reachesLogger_warning :
    ¬ (ReachesLogger (setDebugLogging .null ([] ++ [⟨true, ["Warning"]⟩])) 1 "Warning" "late step" ↔
      true = true ∧ ("Warning" ∈ ["Warning"] ∨ "All" ∈ ["Warning"])) := by
  have silent : setDebugLogging .null ([] ++ [⟨true, ["Warning"]⟩]) =
      fmi2SetDebugLogging .null true ["Warning"] := rfl
  rw [silent, reachesLogger_setDebugLogging_iff]
  simp [categoryBits]

end DseFmi.Fmu
