import DseFmi.FmiGateway.ScriptParameters
import DseFmi.Library.TakeWhile

/-!
# The nodes of the script parameters

The parser asks for one object after another until there is none. A node without a value
reference or a name gives no object either, so that it ends the enumeration.
-/

namespace DseFmi.FmiGateway

open DseFmi.Fmu DseFmi.Generate DseFmi.Library

inductive NodeChild where
  | other
  | element (name : String) (start value : Option String)

/-- A variable that the XPath of a parameter selects, with the attributes that are read. -/
structure ScriptNode where
  valueReference : Option String
  name : Option String
  start : Option String
  children : List NodeChild

inductive FmiVersion where
  | fmi2
  | fmi3
  deriving DecidableEq, Repr

/-- An attribute of the first child element with a name. -/
def childAttribute (name : String) (select : Option String → Option String → Option String) :
    List NodeChild → Option String
  | [] => none
  | .other :: children => childAttribute name select children
  | .element child start value :: children =>
      if child = name then select start value else childAttribute name select children

def getStartValue (type : ParameterType) (version : FmiVersion) (node : ScriptNode) :
    Option String :=
  match type, version with
  | .string, .fmi3 => childAttribute "Start" (fun _ value => value) node.children
  | .string, .fmi2 => childAttribute "String" (fun start _ => start) node.children
  | .real, .fmi3 => node.start
  | .real, .fmi2 => childAttribute "Real" (fun start _ => start) node.children

/-- The object for a node, which may be `NULL`, and the FMU after it. -/
abbrev NodeGenerator := ScriptNode → FmuInstanceData → Option FmiGatewayParameter × FmuInstanceData

/-- One object, with the index of the next node; also `NULL` behind the last node. -/
def xmlObjectEnumerator (generator : NodeGenerator) (nodes : List ScriptNode) (index : Nat)
    (fmu : FmuInstanceData) : Option FmiGatewayParameter × Nat × FmuInstanceData :=
  match nodes[index]? with
  | none => (none, index, fmu)
  | some node =>
      let (o, fmu) := generator node fmu
      (o, index + 1, fmu)

theorem xmlObjectEnumerator_advances {generator : NodeGenerator} {nodes : List ScriptNode}
    {index next : Nat} {fmu gmu : FmuInstanceData} {o : FmiGatewayParameter}
    (found : xmlObjectEnumerator generator nodes index fmu = (some o, next, gmu)) :
    nodes.length - next < nodes.length - index := by
  simp only [xmlObjectEnumerator] at found
  split at found
  · cases found
  next node there =>
      have inside := (List.getElem?_eq_some_iff.mp there).1
      simp only [Prod.mk.injEq] at found
      omega

def enumerateObjects (generator : NodeGenerator) (nodes : List ScriptNode) (index : Nat)
    (fmu : FmuInstanceData) : List FmiGatewayParameter × FmuInstanceData :=
  match _found : xmlObjectEnumerator generator nodes index fmu with
  | (none, _, fmu) => ([], fmu)
  | (some o, next, fmu) =>
      let (later, fmu) := enumerateObjects generator nodes next fmu
      (o :: later, fmu)
termination_by nodes.length - index
decreasing_by exact xmlObjectEnumerator_advances _found

theorem enumerateObjects_none {generator : NodeGenerator} {nodes : List ScriptNode}
    {index next : Nat} {fmu gmu : FmuInstanceData}
    (ended : xmlObjectEnumerator generator nodes index fmu = (none, next, gmu)) :
    enumerateObjects generator nodes index fmu = ([], gmu) := by
  rw [enumerateObjects]
  split
  next found =>
      cases ended.symm.trans found
      rfl
  next found =>
      cases ended.symm.trans found

theorem enumerateObjects_some {generator : NodeGenerator} {nodes : List ScriptNode}
    {index next : Nat} {fmu gmu : FmuInstanceData} {o : FmiGatewayParameter}
    (given : xmlObjectEnumerator generator nodes index fmu = (some o, next, gmu)) :
    enumerateObjects generator nodes index fmu =
      (o :: (enumerateObjects generator nodes next gmu).1,
        (enumerateObjects generator nodes next gmu).2) := by
  rw [enumerateObjects]
  split
  next found =>
      cases given.symm.trans found
  next found =>
      cases given.symm.trans found
      rfl

section Parse

variable (strtod : String → Double) (version : FmiVersion)

def nodeValue (type : ParameterType) (node : ScriptNode) : Double :=
  match getStartValue type version node with
  | some start => strtod start
  | none => 0

def nodeText (node : ScriptNode) : CString :=
  match getStartValue .string version node with
  | some start => cString start
  | none => cString ""

def envarNodeGenerator (type : ParameterType) : NodeGenerator := fun node fmu =>
  match node.valueReference, node.name with
  | some vref, some name =>
      match type with
      | .string =>
          let text := nodeText version node
          (some ⟨name, vref, .string, text⟩, hashmapSetString fmu vref text)
      | .real =>
          let value := nodeValue strtod version .real node
          (some ⟨name, vref, .real, numericEnvar value⟩, hashmapSetDouble fmu vref value)
  | _, _ => (none, fmu)

/-- The parameters of the scripts, and the FMU with their values. -/
def parseScriptNodes (strings reals : List ScriptNode) (fmu : FmuInstanceData) :
    List FmiGatewayParameter × FmuInstanceData :=
  let (texts, fmu) :=
    enumerateObjects (envarNodeGenerator strtod version .string) strings 0 fmu
  let (numbers, fmu) :=
    enumerateObjects (envarNodeGenerator strtod version .real) reals 0 fmu
  (texts ++ numbers, fmu)

def ScriptNode.complete (node : ScriptNode) : Bool :=
  node.valueReference.isSome && node.name.isSome

def nodeParameter (type : ParameterType) (node : ScriptNode) : FmiGatewayParameter where
  name := node.name.getD ""
  vref := node.valueReference.getD ""
  type
  defaultValue :=
    match type with
    | .string => nodeText version node
    | .real => numericEnvar (nodeValue strtod version .real node)

def setNode (type : ParameterType) (fmu : FmuInstanceData) (node : ScriptNode) :
    FmuInstanceData :=
  match type with
  | .string => hashmapSetString fmu (node.valueReference.getD "") (nodeText version node)
  | .real =>
      hashmapSetDouble fmu (node.valueReference.getD "") (nodeValue strtod version .real node)

structure RegistersComplete (strings reals : List ScriptNode) (fmu : FmuInstanceData) : Prop where
  envar : (parseScriptNodes strtod version strings reals fmu).1 =
    (strings.filter ScriptNode.complete).map (nodeParameter strtod version .string) ++
      (reals.filter ScriptNode.complete).map (nodeParameter strtod version .real)
  fmu : (parseScriptNodes strtod version strings reals fmu).2 =
    (reals.filter ScriptNode.complete).foldl (setNode strtod version .real)
      ((strings.filter ScriptNode.complete).foldl (setNode strtod version .string) fmu)

def CompleteFirst (nodes : List ScriptNode) : Prop :=
  nodes.Pairwise fun node later => later.complete = true → node.complete = true

variable {strtod version}

theorem envarNodeGenerator_complete {type : ParameterType} {node : ScriptNode}
    (complete : node.complete = true) (fmu : FmuInstanceData) :
    envarNodeGenerator strtod version type node fmu =
      (some (nodeParameter strtod version type node), setNode strtod version type fmu node) := by
  rw [ScriptNode.complete, Bool.and_eq_true, Option.isSome_iff_exists,
    Option.isSome_iff_exists] at complete
  obtain ⟨⟨vref, reference⟩, name, named⟩ := complete
  cases type <;> simp [envarNodeGenerator, nodeParameter, setNode, reference, named]

theorem envarNodeGenerator_incomplete {type : ParameterType} {node : ScriptNode}
    (incomplete : node.complete = false) (fmu : FmuInstanceData) :
    envarNodeGenerator strtod version type node fmu = (none, fmu) := by
  cases reference : node.valueReference with
  | none =>
      simp [envarNodeGenerator, reference]
  | some vref =>
      cases named : node.name with
      | none =>
          simp [envarNodeGenerator, reference, named]
      | some name =>
          simp [ScriptNode.complete, reference, named] at incomplete

/-- The enumeration reads the nodes in front of the first incomplete one. -/
theorem enumerateObjects_eq {type : ParameterType} {nodes : List ScriptNode} (index : Nat)
    (fmu : FmuInstanceData) :
    enumerateObjects (envarNodeGenerator strtod version type) nodes index fmu =
      (((nodes.drop index).takeWhile ScriptNode.complete).map (nodeParameter strtod version type),
        ((nodes.drop index).takeWhile ScriptNode.complete).foldl
            (setNode strtod version type) fmu) := by
  generalize remaining : nodes.drop index = rest
  induction rest generalizing index fmu with
  | nil =>
      have behind : nodes[index]? = none := by
        simpa using remaining
      have ended : xmlObjectEnumerator (envarNodeGenerator strtod version type) nodes index fmu =
          (none, index, fmu) := by
        simp [xmlObjectEnumerator, behind]
      exact enumerateObjects_none ended
  | cons node rest ih =>
      have here : nodes[index]? = some node := by
        simpa using congrArg List.head? remaining
      have next : nodes.drop (index + 1) = rest := by
        simpa using congrArg List.tail remaining
      cases complete : node.complete with
      | true =>
          have given : xmlObjectEnumerator (envarNodeGenerator strtod version type) nodes index
              fmu = (some (nodeParameter strtod version type node), index + 1,
                setNode strtod version type fmu node) := by
            simp [xmlObjectEnumerator, here, envarNodeGenerator_complete complete]
          rw [enumerateObjects_some given, ih (index + 1) _ next,
            List.takeWhile_cons_of_pos complete]
          rfl
      | false =>
          have ended : xmlObjectEnumerator (envarNodeGenerator strtod version type) nodes index
              fmu = (none, index + 1, fmu) := by
            simp [xmlObjectEnumerator, here, envarNodeGenerator_incomplete complete]
          rw [enumerateObjects_none ended, List.takeWhile_cons_of_neg (by simp [complete])]
          rfl

theorem parseScriptNodes_eq (strings reals : List ScriptNode) (fmu : FmuInstanceData) :
    parseScriptNodes strtod version strings reals fmu =
      ((strings.takeWhile ScriptNode.complete).map (nodeParameter strtod version .string) ++
          (reals.takeWhile ScriptNode.complete).map (nodeParameter strtod version .real),
        (reals.takeWhile ScriptNode.complete).foldl (setNode strtod version .real)
          ((strings.takeWhile ScriptNode.complete).foldl
          (setNode strtod version .string) fmu)) := by
  simp [parseScriptNodes, enumerateObjects_eq]

/-- Exactly the complete nodes are registered when in neither list one stands behind an
incomplete node. -/
theorem registersComplete_iff (strtod : String → Double) (version : FmiVersion)
    (strings reals : List ScriptNode) (fmu : FmuInstanceData) :
    RegistersComplete strtod version strings reals fmu ↔
      CompleteFirst strings ∧ CompleteFirst reals := by
  rw [CompleteFirst, CompleteFirst, ← takeWhile_eq_filter_iff, ← takeWhile_eq_filter_iff]
  constructor
  · intro registers
    have envar := registers.envar
    rw [parseScriptNodes_eq] at envar
    have lengths := congrArg List.length envar
    simp only [List.length_append, List.length_map] at lengths
    have strings_le := (takeWhile_sublist_filter ScriptNode.complete strings).length_le
    have reals_le := (takeWhile_sublist_filter ScriptNode.complete reals).length_le
    constructor
    · exact (takeWhile_sublist_filter _ strings).eq_of_length (by omega)
    · exact (takeWhile_sublist_filter _ reals).eq_of_length (by omega)
  · rintro ⟨strings_all, reals_all⟩
    constructor
    · rw [parseScriptNodes_eq, strings_all, reals_all]
    · rw [parseScriptNodes_eq, strings_all, reals_all]

end Parse

/-- The second of three strings has no name, and the third one is lost. -/
theorem registersComplete_lost :
    ¬ RegistersComplete (fun _ => 0) .fmi2
        [⟨some "1", some "A", none, []⟩, ⟨some "2", none, none, []⟩, ⟨some "3", some "C", none, []⟩]
        [] .null := by
  intro registers
  have lengths := congrArg List.length registers.envar
  rw [parseScriptNodes_eq] at lengths
  revert lengths
  decide

end DseFmi.FmiGateway
