import DseFmi.Generate.ValueReferences

/-!
# The parameters a user asks for

The stack lists variables and a file lists parameters, each with a name, a type and a
default. A run collects one parameter for each of them, in their order.
-/

namespace DseFmi.Generate

open DseFmi.Library

structure ParameterEntry where
  name : String
  type : ParameterType
  default : Option Value

/-- A variable of the stack; one without a name or of another type is none. -/
def ParameterEntry.ofEnvar : Value → Option ParameterEntry
  | .map entries =>
      let anns : Annotations := entries.foldl (fun anns entry => anns.insert entry.1 entry.2) ∅
      match envarType anns, anns.get "name" with
      | some type, some (.string name) =>
          if name = "" then none else some ⟨name, type, anns.get "default"⟩
      | _, _ => none
  | _ => none

/-- A row of the file, its fields without the white space around them. -/
def ParameterEntry.ofRecord : List String → Option ParameterEntry
  | name :: type :: rest =>
      let paramType := toLower (trimSpace type)
      let default := Value.string (trimSpace (rest.headD ""))
      if paramType = "real" then some ⟨trimSpace name, .real, some default⟩
      else if paramType = "string" then some ⟨trimSpace name, .string, some default⟩
      else none
  | _ => none

def gatewayEntries (anns : Annotations) : List ParameterEntry :=
  match anns.get "cmd_envvars" with
  | some (.list envarList) => envarList.filterMap ParameterEntry.ofEnvar
  | _ => []

def modelEntries (model : ModelInstance) : List ParameterEntry :=
  if model.name = "Gateway" then (model.annotations.map gatewayEntries).getD [] else []

def stackEntries : Option (Except String Stack) → List ParameterEntry
  | some (.ok stack) => (stack.models.getD []).flatMap modelEntries
  | _ => []

def recordEntries : Option (Except String (List (List String))) → List ParameterEntry
  | some (.ok records) => records.filterMap ParameterEntry.ofRecord
  | _ => []

def Arguments.entries (args : Arguments) : List ParameterEntry :=
  stackEntries args.stack ++ recordEntries args.parameters

def ofType (type : ParameterType) (entries : List ParameterEntry) : List ParameterEntry :=
  entries.filter fun e => e.type = type

def Gateway.params (c : Gateway) : ParameterType → List Signal
  | .real => c.realParams
  | .string => c.stringParams

/-- The text that a run keeps of the default. -/
def ParameterEntry.start (e : ParameterEntry) : String :=
  match e.default with
  | some (.string start) => start
  | _ => ""

def Encodes (e : ParameterEntry) (s : Signal) : Prop :=
  ∃ vref, s = parameter e.name vref (some e.start) scriptParameter

def Adds (c d : Gateway) (entries : List ParameterEntry) : Prop :=
  ∀ type, ∃ added, d.params type = c.params type ++ added ∧
    List.Forall₂ Encodes (ofType type entries) added

section Adds

variable {c d e : Gateway} {entries more : List ParameterEntry} {entry : ParameterEntry}

theorem Adds.of_same (real : d.realParams = c.realParams)
    (string : d.stringParams = c.stringParams) : Adds c d [] := by
  intro type
  refine ⟨[], ?_, .nil⟩
  cases type with
  | real => exact real.trans (List.append_nil _).symm
  | string => exact string.trans (List.append_nil _).symm

theorem Adds.refl (c : Gateway) : Adds c c [] := .of_same rfl rfl

theorem Adds.trans (first : Adds c d entries) (second : Adds d e more) :
    Adds c e (entries ++ more) := by
  intro type
  obtain ⟨added, listed, encodes⟩ := first type
  obtain ⟨added', listed', encodes'⟩ := second type
  refine ⟨added ++ added', ?_, ?_⟩
  · rw [listed', listed, List.append_assoc]
  · rw [ofType, List.filter_append]
    exact List.rel_append encodes encodes'

end Adds

end DseFmi.Generate
