import DseFmi.FmiModelC.ScalarSignals
import DseFmi.Library.Annotated

/-!
# Indexing the encodings of binary signals

The encoding of a signal holds for the variables that a list among the annotations of the
signal names. The list is read from the signal groups of the channel.
-/

namespace DseFmi.FmiModelC

open DseFmi.Fmu (HashMap)
open DseFmi.Library

structure ChannelNode where
  name : Option String
  aliasName : Option String

structure ChannelSpec where
  name : String
  aliasName : Option String

structure SchemaSignalObject where
  signal : String
  annotations : Option (String → Option (List String))

/-- The documents of the simulation. A search hands the groups that a selector matches to a
handler, each with its signals. -/
structure Schema (Selector : Type) where
  channels : ModelInstanceSpec → List ChannelNode
  buildChannelSelector : ModelInstanceSpec → Option ChannelSpec → Option Selector
  objectSearch : ModelInstanceSpec → Selector → List (List SchemaSignalObject)

section Lists

variable {Selector : Type} (schema : Schema Selector)

def modelBuildChannelSpec (mi : ModelInstanceSpec) (channelName : String) : Option ChannelSpec :=
  let byName := (schema.channels mi).find? fun c => c.name = some channelName
  let found := byName.or ((schema.channels mi).find? fun c => c.aliasName = some channelName)
  found.map fun c => ⟨c.name.getD channelName, c.aliasName⟩

/-- The match after a group, of which the first signal with the name counts. -/
def signalGroupMatchHandler (signal : String) (found : Option SchemaSignalObject)
    (object : List SchemaSignalObject) : Option SchemaSignalObject :=
  (object.find? fun so => so.signal = signal).or found

def signalAnnotationList (mi : ModelInstanceSpec) (sv : SignalVector) (signal name : String) :
    Option (List String) :=
  let cs := modelBuildChannelSpec schema mi sv.name
  let objects := match schema.buildChannelSelector mi cs with
    | some selector => schema.objectSearch mi selector
    | none => []
  let found := objects.foldl (signalGroupMatchHandler signal) none
  found.bind fun so => so.annotations.bind fun annotations => annotations name

end Lists

inductive CodecFunc where
  | dseAscii85Encode
  | dseAscii85Decode
  deriving DecidableEq, Repr

structure EncodingMaps where
  encodeFunc : HashMap CodecFunc
  decodeFunc : HashMap CodecFunc

def EncodingMaps.set (maps : EncodingMaps) (vref : String) : EncodingMaps where
  encodeFunc := maps.encodeFunc.insert vref .dseAscii85Encode
  decodeFunc := maps.decodeFunc.insert vref .dseAscii85Decode

section Index

variable {Selector : Type} (annotationOf : SignalVector → Nat → String → Option String)
  (schema : Schema Selector)

/-- One binary signal. Comparing the encoding of a signal that has none ends the program. -/
def indexEncoding (mi : ModelInstanceSpec) (sv : SignalVector) (maps : EncodingMaps)
    (signal : String × Nat) : Option EncodingMaps :=
  match annotationOf sv signal.2 "fmi_variable_vref" with
  | none => some maps
  | some _ => do
      let encoding ← annotationOf sv signal.2 "dse.standards.fmi-ls-binary-to-text.encoding"
      if encoding ≠ "ascii85" then some maps
      else
        let vrefs := signalAnnotationList schema mi sv signal.1
          "dse.standards.fmi-ls-binary-to-text.vref"
        some ((vrefs.getD []).foldl EncodingMaps.set maps)

def indexEncodingVector (mi : ModelInstanceSpec) (maps : EncodingMaps) (sv : SignalVector) :
    Option EncodingMaps :=
  if sv.isBinary then sv.signal.zipIdx.foldlM (indexEncoding annotationOf schema mi sv) maps
  else some maps

/-- The loops over the instances, which the gateway has as well. -/
def indexTextEncoding (instances : List ModelInstanceSpec) (maps : EncodingMaps) :
    Option EncodingMaps :=
  instances.foldlM (fun maps mi =>
    mi.sv.foldlM (indexEncodingVector annotationOf schema mi) maps) maps

end Index

def fmimodelcIndexTextEncoding {Selector : Type} (runtime : Runtime) (schema : Schema Selector)
    (sim : SimulationSpec) (maps : EncodingMaps) : Option EncodingMaps :=
  indexTextEncoding runtime.signalAnnotation schema sim.instanceList maps

structure BinarySignal where
  encoding : Option String
  vrefs : List String

def BinarySignal.index (maps : EncodingMaps) (s : BinarySignal) (encoding : String) :
    EncodingMaps :=
  if encoding = "ascii85" then s.vrefs.foldl EncodingMaps.set maps else maps

section Signals

variable {Selector : Type} (annotationOf : SignalVector → Nat → String → Option String)
  (schema : Schema Selector)

def binarySignal (mi : ModelInstanceSpec) (sv : SignalVector) (signal : String × Nat) :
    Option BinarySignal :=
  (annotationOf sv signal.2 "fmi_variable_vref").map fun _ =>
    { encoding := annotationOf sv signal.2 "dse.standards.fmi-ls-binary-to-text.encoding"
      vrefs := (signalAnnotationList schema mi sv signal.1
        "dse.standards.fmi-ls-binary-to-text.vref").getD [] }

def binarySignals (instances : List ModelInstanceSpec) : List BinarySignal :=
  instances.flatMap fun mi => (mi.sv.filter SignalVector.isBinary).flatMap fun sv =>
    sv.signal.zipIdx.filterMap (binarySignal annotationOf schema mi sv)

theorem indexEncoding_eq (mi : ModelInstanceSpec) (sv : SignalVector) (maps : EncodingMaps)
    (signal : String × Nat) :
    indexEncoding annotationOf schema mi sv maps signal =
      match binarySignal annotationOf schema mi sv signal with
      | some s => s.encoding.map (s.index maps)
      | none => some maps := by
  simp only [indexEncoding, binarySignal]
  cases annotationOf sv signal.2 "fmi_variable_vref" with
  | none => rfl
  | some vref =>
      simp only [Option.map_some]
      cases annotationOf sv signal.2 "dse.standards.fmi-ls-binary-to-text.encoding" with
      | none => rfl
      | some encoding =>
          by_cases ascii : encoding = "ascii85"
          · simp [BinarySignal.index, ascii]
          · simp [BinarySignal.index, ascii]

/-- The loops visit the binary signals one after another. -/
theorem indexTextEncoding_eq (instances : List ModelInstanceSpec) (maps : EncodingMaps) :
    indexTextEncoding annotationOf schema instances maps =
      foldRequired BinarySignal.encoding BinarySignal.index
        (binarySignals annotationOf schema instances) maps := by
  rw [indexTextEncoding, foldRequired, binarySignals, foldlM_flatMap]
  congr
  funext maps mi
  rw [foldlM_flatMap, List.foldlM_filter]
  congr
  funext maps sv
  rw [indexEncodingVector]
  cases sv.isBinary with
  | false => rfl
  | true =>
      rw [if_pos rfl, if_pos rfl, List.foldlM_filterMap]
      congr
      funext maps signal
      rw [indexEncoding_eq]
      cases binarySignal annotationOf schema mi sv signal <;> rfl

end Signals

end DseFmi.FmiModelC
