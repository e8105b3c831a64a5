import DseFmi.Generate.MapLayout
import DseFmi.Generate.SimBusChannel
import DseFmi.Library.Success

/-!
# Annotating the signals of a simulation

Rules turn the annotations of a signal into the causality of a variable. Every input and every
output gets a value reference: the next number, or with a direct index the offset of the signal
in its channel.
-/

namespace DseFmi.Generate

open DseFmi.Library

inductive AnnotationFailure where
  | panic (p : Panic)
  | indexOutOfRange
  | error (text : String)
  deriving DecidableEq, Repr

abbrev Command := Except AnnotationFailure

def liftGo {α : Type} (go : Go α) : Command α := go.mapError .panic

/-- The arguments of the command, and the files that rules can be loaded from. -/
structure AnnotationCommand where
  signalGroups : String
  ruleFile : String
  ruleset : String
  buildIndex : Bool
  loadCsv : String → Except String (List (List String))

def AnnotationCommand.getRuleset (c : AnnotationCommand) : Command (List (List String)) :=
  if c.ruleFile.length > 0 then
    match c.loadCsv c.ruleFile with
    | .ok rules => .ok rules
    | .error e => .error (.error ("unable to load CSV: " ++ c.ruleFile ++ " (" ++ e ++ ")"))
  else if c.ruleset = "signal-direction" then
    .ok [["Annotation", "Value", "FmiAnnotation", "FmiValue"],
      ["direction", "input", "fmi_variable_causality", "input"],
      ["direction", "output", "fmi_variable_causality", "output"]]
  else if c.ruleset = "" then .ok []
  else .error (.error ("ruleset not supported: " ++ c.ruleset ++ " "))

def cell (rule : List String) (i : Nat) : Command String :=
  match rule[i]? with
  | some text => .ok text
  | none => .error .indexOutOfRange

def ruleAnnotations (rule : List String) (annotations : Annotations) : Command Annotations := do
  match annotations.get (← cell rule 0) with
  | some (.string ann) =>
      if ann = (← cell rule 1) then
        return annotations.insert (← cell rule 2) (.string (← cell rule 3))
      else return annotations
  | some _ => do
      let _ ← cell rule 1
      return annotations
  | none => return annotations

def ruleSignal (signal : Signal) (rule : List String) : Command Signal := do
  let annotations ← ruleAnnotations rule (← liftGo (deref signal.annotations))
  return { signal with annotations := some annotations }

/-- The signals of a group after all rules but the first row, which is a heading. -/
def applyRule (rules : List (List String)) (doc : SignalGroupDoc) : Command (List Signal) :=
  if doc.metadata.isBinary then .error (.error "could not apply rules. (binary not supported)")
  else doc.signals.mapM fun signal => rules.tail.foldlM ruleSignal signal

structure AnnotatedSignal where
  signal : Signal
  vref : Option Nat

structure AnnotatedDoc where
  doc : SignalGroupDoc
  signals : List AnnotatedSignal

def variableOf (annotations : Annotations) (name : String) (vref : Nat) : Annotations :=
  ((annotations.insert "fmi_variable_vref" (.int vref)).insert
    "fmi_variable_type" (.string "Real")).insert "fmi_variable_name" (.string name)

section Annotate

variable (sim : Simulation) (directIndex : Option DirectIndex)

/-- The reference of a signal, if it gets one, and the number that was used last. -/
def nextVref (labels : AList fun _ : String => String) (name : String) (vref : Nat) :
    Command (Option Nat × Nat) :=
  match directIndex with
  | none => .ok (some (vref + 1), vref + 1)
  | some di => do
      match ← liftGo (lookupSimBusChannelName sim labels) with
      | .error _ => return (none, vref)
      | .ok channel =>
          let (offset, found) := di.getSignalOffset channel name
          return (if found then some offset else none, vref)

def annotateSignal (labels : AList fun _ : String => String) (signal : Signal) (vref : Nat) :
    Command (AnnotatedSignal × Nat) := do
  let annotations ← liftGo (deref signal.annotations)
  match annotations.lookup "fmi_variable_causality" with
  | none => return (⟨signal, none⟩, vref)
  | some direction =>
      let direction ← liftGo (Value.asString (some direction))
      if direction ∈ ["input", "output"] then
        match ← nextVref sim directIndex labels signal.signal vref with
        | (none, vref) => return (⟨signal, none⟩, vref)
        | (some v, vref) =>
            let annotations := variableOf annotations signal.signal v
            return (⟨{ signal with annotations := some annotations }, some v⟩, vref)
      else return (⟨signal, none⟩, vref)

def annotateSignals (labels : AList fun _ : String => String) :
    List Signal → Nat → Command (List AnnotatedSignal × Nat)
  | [], vref => .ok ([], vref)
  | signal :: signals, vref => do
      let (first, vref) ← annotateSignal sim directIndex labels signal vref
      let (rest, vref) ← annotateSignals labels signals vref
      return (first :: rest, vref)

def unannotated (doc : SignalGroupDoc) : AnnotatedDoc := ⟨doc, doc.signals.map (⟨·, none⟩)⟩

def AnnotationCommand.annotateSignalgroup (c : AnnotationCommand) (doc : SignalGroupDoc)
    (vref : Nat) : Command (AnnotatedDoc × Nat) := do
  let rules ← c.getRuleset
  if rules.length > 0 then
    let signals ← applyRule rules doc
    let (signals, vref) ← annotateSignals sim directIndex doc.labels signals vref
    return (⟨doc, signals⟩, vref)
  else return (unannotated doc, vref)

/-- A group that the filter leaves out, or that is an index itself, is not annotated. -/
def AnnotationCommand.annotateSelected (c : AnnotationCommand) (doc : SignalGroupDoc)
    (vref : Nat) : Command (AnnotatedDoc × Nat) :=
  if doc.selected (filterNames c.signalGroups) && !doc.hasIndex then
    c.annotateSignalgroup sim directIndex doc vref
  else .ok (unannotated doc, vref)

def AnnotationCommand.runAnnotateSignalGroups (c : AnnotationCommand) :
    List SignalGroupDoc → Nat → Command (List AnnotatedDoc × Nat)
  | [], vref => .ok ([], vref)
  | doc :: docs, vref => do
      let (first, vref) ← c.annotateSelected sim directIndex doc vref
      let (rest, vref) ← c.runAnnotateSignalGroups docs vref
      return (first :: rest, vref)

end Annotate

/-- The loop over the groups; one without a channel is passed over. -/
def indexGroups (sim : Simulation) (filter : List String) :
    DirectIndex → List SignalGroupDoc → Go DirectIndex
  | di, [] => .ok di
  | di, doc :: docs =>
      if doc.selected filter && !doc.hasIndex then do
        match ← lookupSimBusChannelName sim doc.labels with
        | .error _ => indexGroups sim filter di docs
        | .ok channel =>
            let di := (di.getSignalGroup channel).2
            let di := doc.signals.foldl (fun di signal => di.addSignal channel signal.signal) di
            indexGroups sim filter di docs
      else indexGroups sim filter di docs

def DirectIndexSignal.signal (s : DirectIndexSignal) : Signal :=
  ⟨s.name, some (((∅ : Annotations).insert "index" (.int s.index)).insert "offset" (.int s.offset))⟩

def DirectIndexSignalGroup.doc (group : DirectIndexSignalGroup) : SignalGroupDoc where
  name := group.name
  annotations := (∅ : Annotations).insert "direct_index"
    (.map [("offset", .int group.offset), ("length", .int group.length)])
  labels := (∅ : AList fun _ : String => String).insert "index" "direct"
  signals := group.signals.map DirectIndexSignal.signal

/-- A document is appended to the index file for each group, up to the first that cannot be. -/
def writeSignalGroup (writes : SignalGroupDoc → Bool) :
    List SignalGroupDoc → List DirectIndexSignalGroup → List SignalGroupDoc × Bool
  | indexFile, [] => (indexFile, true)
  | indexFile, group :: groups =>
      if writes group.doc then writeSignalGroup writes (indexFile ++ [group.doc]) groups
      else (indexFile, false)

structure AnnotationRun where
  docs : List AnnotatedDoc
  indexFile : List SignalGroupDoc

/-- The documents of the index file, those it held before included, are added to the groups that
are annotated. An error in writing it is only logged. -/
def AnnotationCommand.run (c : AnnotationCommand) (sim : Simulation) (docs : List SignalGroupDoc)
    (indexFile : List SignalGroupDoc) (writes : SignalGroupDoc → Bool) : Command AnnotationRun :=
  if sim.stackDocs.length ≠ 1 then
    .error (.error ("simulation folder contains " ++ Nat.repr sim.stackDocs.length ++
      " Stacks, expected 1"))
  else if c.buildIndex then do
    let di ← liftGo (indexGroups sim (filterNames c.signalGroups) newDirectIndex docs)
    let (indexFile, _) := writeSignalGroup writes indexFile di.calculateMapOffsets.groups
    let (annotated, _) ←
      c.runAnnotateSignalGroups sim (some di.calculateMapOffsets) (docs ++ indexFile) 0
    return ⟨annotated, indexFile⟩
  else do
    let (annotated, _) ← c.runAnnotateSignalGroups sim none docs 0
    return ⟨annotated, indexFile⟩

end DseFmi.Generate
