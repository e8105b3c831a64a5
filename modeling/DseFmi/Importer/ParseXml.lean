import DseFmi.Fmu.Variable
import DseFmi.Importer.Cosim

/-!
# Parsing of a model description by the importer

The importer keeps the reals and the binaries of each direction in hash maps, by the texts of
their value references, and then lays them out in arrays. The order of the arrays is the one
in which the hash maps list their keys.
-/

namespace DseFmi.Importer

open DseFmi.Fmu (HashMap XmlTool XmlChild ScalarVariable parseToolAnno)

inductive VariableChild where
  | element (name : String) (start : Option String) (tools : List XmlTool)
  | other
  deriving DecidableEq, Repr

structure VariableNode where
  name : String
  valueReference : Option String
  causality : Option String
  children : List VariableChild
  deriving DecidableEq, Repr

def VariableChild.xmlChild : VariableChild → XmlChild
  | .element name _ tools => .element name tools
  | .other => .other

/-- The node as the FMU reads it, under a reference. -/
def VariableNode.scalarVariable (node : VariableNode) (vr : String) : ScalarVariable :=
  ⟨node.name, vr, node.causality, node.children.map VariableChild.xmlChild⟩

structure Fmi3Annotation where
  type : String
  elements : List (String × String)
  deriving DecidableEq, Repr

inductive Fmi3Child where
  | start (value : Option String)
  | annotations (list : List Fmi3Annotation)
  | other
  deriving DecidableEq, Repr

structure Fmi3Node where
  element : String
  valueReference : Option String
  causality : Option String
  start : Option String
  children : List Fmi3Child
  deriving DecidableEq, Repr

structure ModelXml where
  fmiVersion : Option String
  modelIdentifier : Option String
  fmi2Variables : List VariableNode
  fmi3Variables : List Fmi3Node

structure ParsedBinary where
  start : Option String
  info : BinaryData
  deriving DecidableEq, Repr

structure VrMaps (D : Type) where
  vrRxReal : HashMap D
  vrTxReal : HashMap D
  vrRxBinary : HashMap ParsedBinary
  vrTxBinary : HashMap ParsedBinary

def VrMaps.empty {D : Type} : VrMaps D := ⟨∅, ∅, ∅, ∅⟩

/-- The configuration of the codec that is created for a MIME type. -/
abbrev CodecConfig := String → List (String × String)

def networkMimeTypeValue (config : CodecConfig) (mimeType key : String) : Option String :=
  ((config mimeType).find? fun item => item.1 = key).map Prod.snd

def binaryData (config : CodecConfig) (start mimeType : Option String) : ParsedBinary :=
  ⟨start, ⟨mimeType, mimeType.bind fun mimeType => networkMimeTypeValue config mimeType "type"⟩⟩

section Parse

variable {D : Type} (atof : String → D) (zero : D) (config : CodecConfig)

def setReal (vr causality : String) (start : D) (maps : VrMaps D) : VrMaps D :=
  if causality = "input" then { maps with vrRxReal := maps.vrRxReal.insert vr start }
  else if causality = "output" then { maps with vrTxReal := maps.vrTxReal.insert vr start }
  else maps

def setBinary (vr causality : String) (data : ParsedBinary) (maps : VrMaps D) : VrMaps D :=
  if causality = "input" then { maps with vrRxBinary := maps.vrRxBinary.insert vr data }
  else if causality = "output" then { maps with vrTxBinary := maps.vrTxBinary.insert vr data }
  else maps

def parseFmi2Scalar (child vr causality : String) (start : Option String) (maps : VrMaps D) :
    VrMaps D :=
  if child ≠ "Real" then maps
  else setReal vr causality ((start.map atof).getD zero) maps

def parseFmi2String (variable_ : VariableNode) (child vr causality : String)
    (start : Option String) (maps : VrMaps D) : VrMaps D :=
  if child ≠ "String" then maps
  else
    let mimeType := parseToolAnno (variable_.scalarVariable vr)
      "dse.standards.fmi-ls-binary-codec" "mimetype"
    setBinary vr causality (binaryData config start mimeType) maps

def parseFmi2Child (variable_ : VariableNode) (vr causality : String) (maps : VrMaps D) :
    VariableChild → VrMaps D
  | .other => maps
  | .element child start _ =>
      parseFmi2String config variable_ child vr causality start
        (parseFmi2Scalar atof zero child vr causality start maps)

/-- A variable without a reference or a causality is skipped. -/
def parseFmi2Variable (maps : VrMaps D) (variable_ : VariableNode) : VrMaps D :=
  match variable_.valueReference, variable_.causality with
  | some vr, some causality =>
      variable_.children.foldl (parseFmi2Child atof zero config variable_ vr causality) maps
  | _, _ => maps

def parseFmi2ModelDesc (nodes : List VariableNode) : VrMaps D :=
  nodes.foldl (parseFmi2Variable atof zero config) .empty

/-- Of several annotations of a tool, the last one with the element counts. -/
def parseFmi3ToolAnno (node : Fmi3Node) (tool name : String) : Option String :=
  let annotations := node.children.flatMap fun
    | .annotations list => list.filter fun a => a.type = tool
    | _ => []
  (annotations.filterMap fun a =>
    (a.elements.find? fun element => element.1 = name).map Prod.snd).getLast?

def parseFmi3Scalar (node : Fmi3Node) (vr causality : String) (maps : VrMaps D) : VrMaps D :=
  if node.element ≠ "Float64" then maps
  else setReal vr causality ((node.start.map atof).getD zero) maps

def Fmi3Node.startValue (node : Fmi3Node) : Option String :=
  ((node.children.filterMap fun
    | .start value => some value
    | _ => none).getLast?).join

/-- The start value is duplicated, which does not return when there is none. -/
def parseFmi3Binary (node : Fmi3Node) (vr causality : String) (maps : VrMaps D) :
    Option (VrMaps D) :=
  if node.element ≠ "Binary" then some maps
  else do
    let start ← node.startValue
    let mimeType := parseFmi3ToolAnno node "dse.standards.fmi-ls-binary-codec" "Mimetype"
    return setBinary vr causality (binaryData config (some start) mimeType) maps

def parseFmi3Node (maps : VrMaps D) (node : Fmi3Node) : Option (VrMaps D) :=
  match node.valueReference, node.causality with
  | some vr, some causality =>
      parseFmi3Binary config node vr causality (parseFmi3Scalar atof zero node vr causality maps)
  | _, _ => some maps

def parseFmi3ModelDesc (nodes : List Fmi3Node) : Option (VrMaps D) :=
  nodes.foldlM (parseFmi3Node atof zero config) .empty

end Parse

/-- The order in which the hash maps list their keys. -/
structure HashOrder where
  keys : {α : Type} → HashMap α → List String
  perm : ∀ {α : Type} (map : HashMap α), (keys map).Perm map.keys

def listedOrder : HashOrder := ⟨fun map => map.keys, fun map => List.Perm.refl map.keys⟩

section Alloc

variable {D : Type} (order : HashOrder) (zero : D)

/-- The references and the values of a map; the memory of the values is zero before. -/
def allocReal (map : HashMap D) : List UInt32 × List D :=
  ((order.keys map).map fun k => atoi k.toList,
    (order.keys map).map fun k => (map.lookup k).getD zero)

def allocBinary (map : HashMap ParsedBinary) : List BinaryVariable :=
  (order.keys map).map fun k =>
    ⟨atoi k.toList, ((map.lookup k).map ParsedBinary.info).getD ⟨none, none⟩⟩

structure Storage (D : Type) where
  desc : ModelDescription
  valRxReal : List D
  valTxReal : List D

def allocStorage (maps : VrMaps D) : Storage D where
  desc :=
    { vrRxReal := (allocReal order zero maps.vrRxReal).1
      vrTxReal := (allocReal order zero maps.vrTxReal).1
      rxBinary := allocBinary order maps.vrRxBinary
      txBinary := allocBinary order maps.vrTxBinary }
  valRxReal := (allocReal order zero maps.vrRxReal).2
  valTxReal := (allocReal order zero maps.vrTxReal).2

/-- What is parsed for a version; `none` stands for a version that is not supported, and for a
start value that is missing. -/
def parseVariables (atof : String → D) (config : CodecConfig) (version : UInt32)
    (xml : ModelXml) : Option (Storage D) :=
  if version = 2 then
    some (allocStorage order zero (parseFmi2ModelDesc atof zero config xml.fmi2Variables))
  else if version = 3 then
    (parseFmi3ModelDesc atof zero config xml.fmi3Variables).map (allocStorage order zero)
  else none

end Alloc

end DseFmi.Importer
