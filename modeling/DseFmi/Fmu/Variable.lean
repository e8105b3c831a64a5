import DseFmi.Fmu.Data

/-!
# Indexing of the variables of a model description

The variables are counted once to allocate a signal vector and scanned again to index
them. The scan of a variable ends at the first child element that is not of a supported
type, the count looks at all child elements. Keys are the texts of the attribute.
-/

namespace DseFmi.Fmu

structure XmlTool where
  name : String
  annotations : List (String × Option String)
  deriving DecidableEq, Repr

/-- A child node; the tools are those of an `Annotations` element. -/
inductive XmlChild where
  | element (name : String) (tools : List XmlTool)
  | other
  deriving DecidableEq, Repr

structure ScalarVariable where
  name : String
  valueReference : String
  causality : Option String
  children : List XmlChild
  deriving DecidableEq, Repr

def isScalarVar (child : String) : Bool :=
  child = "Real" || child = "Integer" || child = "Boolean" || child = "Float64"

def isBinaryVar (child : String) : Bool := child = "String" || child = "Binary"

def supportedVar (isBinary : Bool) (child : String) : Bool :=
  if isBinary then isBinaryVar child else isScalarVar child

/-- The text of the first annotation of the name, `none` when there is none. -/
def parseToolAnno (node : ScalarVariable) (tool name : String) : Option String :=
  let annotations := node.children.flatMap fun
    | .element child tools =>
        if child = "Annotations" then
          (tools.filter fun t => t.name = tool).flatMap XmlTool.annotations
        else []
    | .other => []
  (annotations.find? fun annotation => annotation.1 = name).bind Prod.snd

def countChildren (isBinary : Bool) (children : List XmlChild) : Nat :=
  children.countP fun
    | .element name _ => supportedVar isBinary name
    | .other => false

def fmuVariableCount (doc : List ScalarVariable) (isBinary : Bool) : Nat :=
  (doc.map fun node => countChildren isBinary node.children).sum

/-- The codecs the codec library creates, by MIME type. -/
abbrev Codecs := String → Bool

def fmuNcodecOpen (codecs : Codecs) (mimeType : Option String) : Option Nat :=
  mimeType.bind fun mimeType => if codecs mimeType then some 0 else none

def indexScalarVariable (fmu : FmuInstanceData) (p : FmuSignalVectorIndex)
    (vr : String) (causality : Option String) : FmuInstanceData :=
  if causality = some "output" then { fmu with scalarOutput := fmu.scalarOutput.insert vr p }
  else if causality = some "input" then { fmu with scalarInput := fmu.scalarInput.insert vr p }
  else fmu

def indexBinaryFuncs (fmu : FmuInstanceData) (vr : String) (encoding : Option String) :
    FmuInstanceData :=
  if encoding = some "ascii85" then
    { fmu with
      encodeFunc := fmu.encodeFunc.insert vr .dseAscii85Encode
      decodeFunc := fmu.decodeFunc.insert vr .dseAscii85Decode }
  else fmu

def indexBinarySignal (fmu : FmuInstanceData) (p : FmuSignalVectorIndex) (vr : String)
    (causality : Option String) : FmuInstanceData :=
  if causality = some "output" then { fmu with binaryTx := fmu.binaryTx.insert vr p }
  else if causality = some "input" then { fmu with binaryRx := fmu.binaryRx.insert vr p }
  else fmu

def FmuSignalVector.openCodec (codecs : Codecs) (sv : FmuSignalVector) (i : Nat)
    (mimeType : Option String) : FmuSignalVector :=
  { sv with
    binary := sv.binary.map fun binary => binary.modify i fun signal =>
      { signal with mimeType, ncodec := fmuNcodecOpen codecs mimeType } }

/-- The local variables of the scan; the vector is the one at position `pos`. -/
structure IndexState where
  fmu : FmuInstanceData
  sv : FmuSignalVector
  svIdx : Nat

section Scan

variable (codecs : Codecs) (isBinary : Bool) (pos : Nat)

/-- Index one variable; `none` stands for the failing assertion on the count. -/
def indexVariable (node : ScalarVariable) (s : IndexState) : Option IndexState :=
  let p : FmuSignalVectorIndex := ⟨pos, s.svIdx⟩
  let sv := { s.sv with signal := s.sv.signal.set s.svIdx (some node.name) }
  if s.svIdx < s.sv.count then
    if isBinary then
      let fmu := indexBinarySignal s.fmu p node.valueReference node.causality
      let encoding := parseToolAnno node "dse.standards.fmi-ls-binary-to-text" "encoding"
      let mimeType := parseToolAnno node "dse.standards.fmi-ls-binary-codec" "mimetype"
      some
        { fmu := indexBinaryFuncs fmu node.valueReference encoding
          sv := sv.openCodec codecs s.svIdx mimeType
          svIdx := s.svIdx + 1 }
    else
      some
        { fmu := indexScalarVariable s.fmu p node.valueReference node.causality
          sv := sv
          svIdx := s.svIdx + 1 }
  else none

def indexChildren (node : ScalarVariable) : IndexState → List XmlChild → Option IndexState
  | s, [] => some s
  | s, .other :: children => indexChildren node s children
  | s, .element name _ :: children =>
      if supportedVar isBinary name then do
        let s ← indexVariable codecs isBinary pos node s
        indexChildren node s children
      else some s

def fmuVariableIndex (doc : List ScalarVariable) (s : IndexState) : Option IndexState :=
  doc.foldlM (fun s node => indexChildren codecs isBinary pos node s node.children) s

end Scan

def allocateSv (doc : List ScalarVariable) (isBinary : Bool) : Option FmuSignalVector :=
  let count := fmuVariableCount doc isBinary
  if count = 0 then none
  else
    some
      { count
        signal := List.replicate count none
        scalar := if isBinary then none else some (List.replicate count 0)
        binary :=
          if isBinary then some (List.replicate count ⟨.null, none, none⟩) else none }

/-- Index an allocated vector at position `pos`, and append it to those before it. -/
def setupSv (codecs : Codecs) (doc : List ScalarVariable) (isBinary : Bool)
    (state : FmuInstanceData × List FmuSignalVector) :
    Option (FmuInstanceData × List FmuSignalVector) :=
  match allocateSv doc isBinary with
  | none => some state
  | some sv => do
      let s ← fmuVariableIndex codecs isBinary state.2.length doc ⟨state.1, sv, 0⟩
      some (s.fmu, state.2 ++ [s.sv])

/-- `none` as document stands for a file that is not parsed. -/
def fmuDefaultSignalsSetup (codecs : Codecs) (doc : Option (List ScalarVariable))
    (fmu : FmuInstanceData) : Option FmuInstanceData :=
  match doc with
  | none => some fmu
  | some doc => do
      let scalar ← setupSv codecs doc false (fmu, [])
      let binary ← setupSv codecs doc true scalar
      some { binary.1 with data := binary.2 }

end DseFmi.Fmu
