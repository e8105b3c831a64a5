import DseFmi.Fmu.Binary
import DseFmi.Generate.GatewayFmu

/-!
# The settings of a gateway FMU

A gateway reads its settings from its model description: the runtime, the commands of the
runtime, and the parameters an importer may set. The texts of the document are those the
generator wrote.
-/

namespace DseFmi.FmiGateway

open DseFmi.Fmu DseFmi.Generate

inductive FmiGatewayRuntimeType where
  | legacy
  | simer
  deriving DecidableEq, Repr

structure Settings where
  runtimeType : FmiGatewayRuntimeType
  cmds : List CString

structure Instance where
  fmu : FmuInstanceData
  settings : Settings

def runtimeName : FmiGatewayRuntimeType → String
  | .simer => "simer"
  | .legacy => "legacy"

/-- The characters of XML; the encoder replaces any other. -/
def isInCharacterRange (c : Char) : Bool :=
  let n := c.toNat
  n = 0x09 || n = 0x0A || n = 0x0D || (0x20 ≤ n && n ≤ 0xD7FF) ||
    (0xE000 ≤ n && n ≤ 0xFFFD) || 0x10000 ≤ n

def xmlText (s : String) : String :=
  String.ofList (s.toList.map fun c => if isInCharacterRange c then c else Char.ofNat 0xFFFD)

def utf8 (s : String) : List UInt8 := s.toList.flatMap String.utf8EncodeChar

def cString (s : String) : CString :=
  ⟨(utf8 s).takeWhile (· ≠ 0), fun nul => by simpa using List.mem_takeWhile_imp nul⟩

def configAnnotations : FmuXml → List (String × String)
  | .fmi2 md => md.vendorAnnotations.getD []
  | .fmi3 md => md.annotations.getD []

structure XmlParameter where
  name : String
  valueReference : String
  annotations : List String
  start : String
  deriving DecidableEq, Repr

def XmlParameter.ofCausality (causality : String) (p : XmlParameter) : Option XmlParameter :=
  if causality = "parameter" then some p else none

def fmi2Parameter (type : ParameterType) (v : Fmi2.ScalarVariable) : Option XmlParameter :=
  let tools := (v.annotations.getD []).map Fmi2.Tool.name
  match type, v.type with
  | .real, .real start =>
    XmlParameter.ofCausality v.causality ⟨v.name, v.valueReference, tools, start⟩
  | .string, .string start =>
      XmlParameter.ofCausality v.causality ⟨v.name, v.valueReference, tools, start⟩
  | _, _ => none

def fmi3RealParameter (v : Fmi3.Float) : Option XmlParameter :=
  XmlParameter.ofCausality v.causality
    ⟨v.name, v.valueReference, (v.annotations.getD []).map Fmi3.Annotation.type, v.start⟩

def fmi3StringParameter (v : Fmi3.Binary) : Option XmlParameter :=
  XmlParameter.ofCausality v.causality
    ⟨v.name, v.valueReference, (v.annotations.getD []).map Fmi3.Annotation.type, v.start⟩

/-- The parameters of a type, in the order of the document. -/
def xmlParameters (type : ParameterType) : FmuXml → List XmlParameter
  | .fmi2 md => md.scalarVariable.filterMap (fmi2Parameter type)
  | .fmi3 md =>
      match type with
      | .real => md.float64.filterMap fmi3RealParameter
      | .string => md.string.filterMap fmi3StringParameter

def annotatedParameters (type : ParameterType) (key : String) (xml : FmuXml) :
    List XmlParameter :=
  (xmlParameters type xml).filter fun p => key ∈ p.annotations

def hashmapSetString (fmu : FmuInstanceData) (k : String) (value : CString) : FmuInstanceData :=
  { fmu with stringInput := fmu.stringInput.insert k value }

/-- The storage of the value stands behind the signal vectors. -/
def hashmapSetDouble (fmu : FmuInstanceData) (k : String) (value : Double) : FmuInstanceData :=
  { fmu with
    data := fmu.data ++ [{ count := 1, signal := [none], scalar := some [value], binary := none }]
    scalarInput := fmu.scalarInput.insert k ⟨fmu.data.length, 0⟩ }

def rtParamGenerator (type : ParameterType) (fmu : FmuInstanceData) (node : XmlParameter) :
    FmuInstanceData :=
  match type with
  | .string => hashmapSetString fmu node.valueReference (cString "")
  | .real => hashmapSetDouble fmu node.valueReference 0

/-- The parameters of scripts take their start values; `strtod` reads a number. -/
def envarGenerator (strtod : String → Double) (type : ParameterType) (fmu : FmuInstanceData)
    (node : XmlParameter) : FmuInstanceData :=
  match type with
  | .string => hashmapSetString fmu node.valueReference (cString (xmlText node.start))
  | .real =>
      hashmapSetDouble fmu node.valueReference (if node.start = "" then 0 else strtod node.start)

def parseRuntimeType (annotations : List (String × String)) : FmiGatewayRuntimeType :=
  match annotations.find? fun annotation => annotation.1 = "dse.fmi.gateway.runtime" with
  | some (_, text) => if xmlText text = "simer" then .simer else .legacy
  | none => .legacy

/-- The commands of a runtime, in the order of the document. -/
def parseCmds (name : String) (annotations : List (String × String)) : List CString :=
  let key := ("dse.fmi.gateway." ++ name ++ ".cmd.").toList
  (annotations.filter fun annotation => key.isPrefixOf annotation.1.toList).map fun annotation =>
    cString (xmlText annotation.2)

def parseRuntime (xml : FmuXml) (i : Instance) : Instance :=
  if i.settings.runtimeType = .legacy then i
  else
    let name := runtimeName i.settings.runtimeType
    let key := "dse.fmi.gateway." ++ name ++ ".parameter"
    let fmu := (annotatedParameters .string key xml).foldl (rtParamGenerator .string) i.fmu
    let fmu := (annotatedParameters .real key xml).foldl (rtParamGenerator .real) fmu
    { fmu, settings := { i.settings with cmds := parseCmds name (configAnnotations xml) } }

def parseXmlScriptEnvar (strtod : String → Double) (xml : FmuXml) (i : Instance) : Instance :=
  let fmu := (annotatedParameters .string scriptParameter xml).foldl
    (envarGenerator strtod .string) i.fmu
  let fmu := (annotatedParameters .real scriptParameter xml).foldl (envarGenerator strtod .real) fmu
  { i with fmu }

def fmigatewayParseXml (strtod : String → Double) (xml : FmuXml) : Instance :=
  let settings := { runtimeType := parseRuntimeType (configAnnotations xml), cmds := [] }
  parseXmlScriptEnvar strtod xml (parseRuntime xml ⟨.null, settings⟩)

/-- The keys of a string and of a scalar that the hash maps do not have. -/
structure Missing (string scalar : String) (fmu : FmuInstanceData) : Prop where
  string : fmu.stringInput.lookup string = none
  scalar : fmu.scalarInput.lookup scalar = none

section Missing

variable {string scalar : String} {fmu : FmuInstanceData}

theorem missing_null (string scalar : String) : Missing string scalar .null := ⟨rfl, rfl⟩

theorem Missing.hashmapSetString (missing : Missing string scalar fmu) {k : String}
    (other : k ≠ string) (value : CString) :
    Missing string scalar (hashmapSetString fmu k value) := by
  refine ⟨?_, missing.scalar⟩
  exact (AList.lookup_insert_ne other.symm).trans missing.string

theorem Missing.hashmapSetDouble (missing : Missing string scalar fmu) {k : String}
    (other : k ≠ scalar) (value : Double) :
    Missing string scalar (hashmapSetDouble fmu k value) := by
  refine ⟨missing.string, ?_⟩
  exact (AList.lookup_insert_ne other.symm).trans missing.scalar

structure NoParameter (string scalar : String) (xml : FmuXml) : Prop where
  string : ∀ p ∈ xmlParameters .string xml, p.valueReference ≠ string
  scalar : ∀ p ∈ xmlParameters .real xml, p.annotations ≠ [] → p.valueReference ≠ scalar

theorem Missing.foldl {α : Type} (step : FmuInstanceData → α → FmuInstanceData) {items : List α}
    (keeps : ∀ fmu, ∀ a ∈ items, Missing string scalar fmu → Missing string scalar (step fmu a))
    (missing : Missing string scalar fmu) : Missing string scalar (items.foldl step fmu) := by
  induction items generalizing fmu with
  | nil => exact missing
  | cons a items ih =>
      apply ih
      · intro gmu b later
        exact keeps gmu b (List.mem_cons_of_mem a later)
      · exact keeps fmu a List.mem_cons_self missing

variable {xml : FmuXml} (free : NoParameter string scalar xml)

include free

theorem NoParameter.string_ne {key : String} {p : XmlParameter}
    (member : p ∈ annotatedParameters .string key xml) : p.valueReference ≠ string :=
  free.string p (List.mem_filter.mp member).1

theorem NoParameter.scalar_ne {key : String} {p : XmlParameter}
    (member : p ∈ annotatedParameters .real key xml) : p.valueReference ≠ scalar := by
  obtain ⟨listed, annotated⟩ := List.mem_filter.mp member
  apply free.scalar p listed
  exact List.ne_nil_of_mem (of_decide_eq_true annotated)

theorem NoParameter.parseRuntime {i : Instance} (missing : Missing string scalar i.fmu) :
    Missing string scalar (parseRuntime xml i).fmu := by
  unfold FmiGateway.parseRuntime
  split
  · exact missing
  · apply Missing.foldl
    · intro fmu p member before
      exact before.hashmapSetDouble (free.scalar_ne member) 0
    · apply Missing.foldl _ _ missing
      intro fmu p member before
      exact before.hashmapSetString (free.string_ne member) _

theorem NoParameter.parseXmlScriptEnvar (strtod : String → Double) {i : Instance}
    (missing : Missing string scalar i.fmu) :
    Missing string scalar (parseXmlScriptEnvar strtod xml i).fmu := by
  unfold FmiGateway.parseXmlScriptEnvar
  apply Missing.foldl
  · intro fmu p member before
    exact before.hashmapSetDouble (free.scalar_ne member) _
  · apply Missing.foldl _ _ missing
    intro fmu p member before
    exact before.hashmapSetString (free.string_ne member) _

theorem NoParameter.fmigatewayParseXml (strtod : String → Double) :
    Missing string scalar (fmigatewayParseXml strtod xml).fmu :=
  free.parseXmlScriptEnvar strtod (free.parseRuntime (missing_null string scalar))

end Missing

theorem settings_fmigatewayParseXml (strtod : String → Double) (xml : FmuXml) :
    let annotations := configAnnotations xml
    let type := parseRuntimeType annotations
    (fmigatewayParseXml strtod xml).settings =
      ⟨type, if type = .legacy then [] else parseCmds (runtimeName type) annotations⟩ := by
  simp only [fmigatewayParseXml, parseXmlScriptEnvar, parseRuntime]
  split
  · rfl
  · rfl

end DseFmi.FmiGateway
