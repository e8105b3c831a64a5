import DseFmi.FmiGateway.ModelDescription
import DseFmi.FmiGateway.SessionWin32
import DseFmi.Generate.ParameterEntries
import DseFmi.Library.Correspondence
import DseFmi.Library.KeyedList

/-!
# The defaults of script parameters

A default is written under a key that the start value is not read from. The variables of
the model description have the start value of a parameter without a default, and so have
the parameters of the gateway.
-/

namespace DseFmi.FmiGateway

open DseFmi.Fmu DseFmi.Generate DseFmi.Library

def numericEnvarLen : Nat := 24

def printfF (x : Double) : String :=
  if exponentOf x = 2047 then
    let text := if fractionOf x ≠ 0 then "nan" else "inf"
    if x.msb then "-" ++ text else text
  else sprintfF x

structure FmiGatewayParameter where
  name : String
  vref : String
  type : ParameterType
  defaultValue : CString

def startNumber (strtod : String → Double) (start : String) : Double :=
  if start = "" then 0 else strtod start

/-- The text of a number, as far as it fits. -/
def numericEnvar (x : Double) : CString :=
  cString (String.ofList ((printfF x).toList.take (numericEnvarLen - 1)))

def scalarValue (fmu : FmuInstanceData) (k : String) : Option Double :=
  (fmu.scalarInput.lookup k).bind fmu.getScalar

theorem scalarValue_hashmapSetDouble (fmu : FmuInstanceData) (k : String) (x : Double) :
    scalarValue (hashmapSetDouble fmu k x) k = some x := by
  have found : (hashmapSetDouble fmu k x).scalarInput.lookup k = some ⟨fmu.data.length, 0⟩ :=
    AList.lookup_insert fmu.scalarInput
  rw [scalarValue, found, Option.bind_some, FmuInstanceData.getScalar, hashmapSetDouble,
    List.getElem?_concat_length]
  rfl

theorem scalarValue_hashmapSetDouble_ne {fmu : FmuInstanceData} {k other : String} {y : Double}
    (stored : scalarValue fmu other = some y) (different : other ≠ k) (x : Double) :
    scalarValue (hashmapSetDouble fmu k x) other = some y := by
  obtain ⟨p, found, value⟩ := Option.bind_eq_some_iff.mp stored
  obtain ⟨sv, vector, value⟩ := Option.bind_eq_some_iff.mp value
  have inside : p.sv < fmu.data.length := (List.getElem?_eq_some_iff.mp vector).1
  have kept : (hashmapSetDouble fmu k x).scalarInput.lookup other = some p :=
    (AList.lookup_insert_ne different).trans found
  rw [scalarValue, kept, Option.bind_some, FmuInstanceData.getScalar, hashmapSetDouble,
    List.getElem?_append_left inside, vector]
  exact value

section Fold

variable (strtod : String → Double) {nodes : List XmlParameter}

theorem scalarValue_foldl_of_not_mem {k : String}
    (other : k ∉ nodes.map XmlParameter.valueReference)
    {fmu : FmuInstanceData} {y : Double} (stored : scalarValue fmu k = some y) :
    scalarValue (nodes.foldl (envarGenerator strtod .real) fmu) k = some y := by
  induction nodes generalizing fmu with
  | nil => exact stored
  | cons node nodes ih =>
      apply ih fun later => other (List.mem_cons_of_mem _ later)
      apply scalarValue_hashmapSetDouble_ne stored
      exact fun same => other (same ▸ List.mem_cons_self)

theorem scalarValue_foldl_of_mem (distinct : (nodes.map XmlParameter.valueReference).Nodup)
    {node : XmlParameter} (member : node ∈ nodes) (fmu : FmuInstanceData) :
    scalarValue (nodes.foldl (envarGenerator strtod .real) fmu) node.valueReference =
      some (startNumber strtod node.start) := by
  induction nodes generalizing fmu with
  | nil => exact absurd member List.not_mem_nil
  | cons first nodes ih =>
      obtain ⟨fresh, distinct⟩ := List.nodup_cons.mp distinct
      rcases List.mem_cons.mp member with rfl | later
      · apply scalarValue_foldl_of_not_mem strtod fresh
        exact scalarValue_hashmapSetDouble fmu node.valueReference _
      · exact ih distinct later _

theorem stringInput_foldl_real (fmu : FmuInstanceData) :
    (nodes.foldl (envarGenerator strtod .real) fmu).stringInput = fmu.stringInput := by
  induction nodes generalizing fmu with
  | nil => rfl
  | cons node nodes ih => exact ih _

theorem stringInput_foldl_string (fmu : FmuInstanceData) :
    (nodes.foldl (envarGenerator strtod .string) fmu).stringInput =
      nodes.foldl (fun map node =>
        map.insert node.valueReference (cString (xmlText node.start))) fmu.stringInput := by
  induction nodes generalizing fmu with
  | nil => rfl
  | cons node nodes ih => exact ih _

end Fold

structure ScriptParameters (added : ParameterType → List Signal) (xml : FmuXml) : Prop where
  listed : ∀ type, annotatedParameters type scriptParameter xml =
    (added type).map (describedParameter type)
  distinct : ∀ type, ((added type).map vrefText).Nodup

theorem ListedIn.xmlParameters {c : Gateway} {annotations : List (String × String)} {xml : FmuXml}
    (listed : ListedIn c annotations xml) (type : ParameterType) :
    ∃ grouped, xmlParameters type xml = (c.params type).map (describedParameter type) ++ grouped ∧
      ∀ p ∈ grouped, p.annotations = [] := by
  cases type with
  | real => exact listed.real
  | string =>
      exact ⟨[], listed.string.trans (List.append_nil _).symm,
        fun _ member => absurd member List.not_mem_nil⟩

/-- The parameters with the annotation are those that were added for the entries. -/
theorem ListedIn.annotatedParameters {c : Gateway} {annotations : List (String × String)}
    {xml : FmuXml} (listed : ListedIn c annotations xml) {type : ParameterType}
    {base added : List Signal} (params : c.params type = base ++ added)
    (without : ∀ s ∈ base, scriptParameter ∉ annotationNames s)
    (with_key : ∀ s ∈ added, scriptParameter ∈ annotationNames s) :
    annotatedParameters type scriptParameter xml = added.map (describedParameter type) := by
  obtain ⟨grouped, split, bare⟩ := listed.xmlParameters type
  have base_none : (base.map (describedParameter type)).filter
      (fun p => scriptParameter ∈ p.annotations) = [] := by
    apply List.filter_eq_nil_iff.mpr
    intro p member selected
    obtain ⟨s, origin, rfl⟩ := List.mem_map.mp member
    exact without s origin (of_decide_eq_true selected)
  have grouped_none : grouped.filter (fun p => scriptParameter ∈ p.annotations) = [] := by
    apply List.filter_eq_nil_iff.mpr
    intro p member selected
    have key : scriptParameter ∈ p.annotations := of_decide_eq_true selected
    rw [bare p member] at key
    exact List.not_mem_nil key
  have added_all : (added.map (describedParameter type)).filter
      (fun p => scriptParameter ∈ p.annotations) = added.map (describedParameter type) := by
    apply List.filter_eq_self.mpr
    intro p member
    obtain ⟨s, origin, rfl⟩ := List.mem_map.mp member
    exact decide_eq_true (with_key s origin)
  rw [FmiGateway.annotatedParameters, split, params, List.map_append, List.filter_append,
    List.filter_append, base_none, grouped_none, added_all, List.nil_append, List.append_nil]

section Values

variable {strtod : String → Double} {added : ParameterType → List Signal} {xml : FmuXml}

theorem ScriptParameters.distinct_references (parameters : ScriptParameters added xml)
    (type : ParameterType) :
    ((annotatedParameters type scriptParameter xml).map XmlParameter.valueReference).Nodup := by
  rw [parameters.listed type, List.map_map]
  exact parameters.distinct type

theorem ScriptParameters.scalarValue (parameters : ScriptParameters added xml)
    (strtod : String → Double) {s : Signal}
    (member : s ∈ added .real) :
    scalarValue (fmigatewayParseXml strtod xml).fmu (vrefText s) = some (strtod "0.0") := by
  have listed : describedParameter .real s ∈ annotatedParameters .real scriptParameter xml := by
    rw [parameters.listed .real]
    exact List.mem_map_of_mem member
  exact scalarValue_foldl_of_mem strtod (parameters.distinct_references .real) listed _

theorem ScriptParameters.stringInput (parameters : ScriptParameters added xml)
    (strtod : String → Double) {s : Signal}
    (member : s ∈ added .string) :
    (fmigatewayParseXml strtod xml).fmu.stringInput.lookup (vrefText s) = some (cString "") := by
  have listed : describedParameter .string s ∈ annotatedParameters .string scriptParameter xml := by
    rw [parameters.listed .string]
    exact List.mem_map_of_mem member
  rw [fmigatewayParseXml, parseXmlScriptEnvar]
  dsimp only
  rw [stringInput_foldl_real, stringInput_foldl_string]
  have found := lookup_foldl_insert_of_mem (β := fun _ => CString)
    (fun node => cString (xmlText node.start)) (parameters.distinct_references .string) listed
    (parseRuntime xml ⟨.null, parseRuntimeType (configAnnotations xml), []⟩).fmu.stringInput
  have empty : xmlText (describedParameter .string s).start = "" := by rfl
  rw [empty] at found
  exact found

end Values

end DseFmi.FmiGateway
