import DseFmi.Generate.AnnotateGroups

/-!
# What is given to the signals of a group

Each step that succeeds keeps the names of the signals, gives a reference to the inputs and outputs
that the rules make, and to no others, and counts on or reads the offset of the signal.
-/

namespace DseFmi.Generate

open DseFmi.Library

theorem liftGo_eq_ok {α : Type} {go : Go α} {a : α} : liftGo go = .ok a ↔ go = .ok a := by
  cases go with
  | error p =>
      constructor
      · intro failed
        cases failed
      · intro failed
        cases failed
  | ok b =>
      constructor
      · rintro ⟨⟩
        rfl
      · rintro ⟨⟩
        rfl

theorem ruleSignal_signal {signal ruled : Signal} {rule : List String}
    (ran : ruleSignal signal rule = .ok ruled) : ruled.signal = signal.signal := by
  obtain ⟨_, _, ran⟩ := bind_eq_ok.mp ran
  obtain ⟨_, _, ran⟩ := bind_eq_ok.mp ran
  rw [← Except.ok.inj ran]

theorem foldlM_ruleSignal_signal {rules : List (List String)} {signal ruled : Signal}
    (ran : rules.foldlM ruleSignal signal = .ok ruled) : ruled.signal = signal.signal := by
  apply foldlM_preserves (P := fun s => s.signal = signal.signal) _ rfl ran
  intro rule _ before after same applied
  exact (ruleSignal_signal applied).trans same

theorem mapM_forall₂ {R : Signal → Signal → Prop} {f : Signal → Command Signal}
    (each : ∀ before later, f before = .ok later → R before later) {signals later : List Signal}
    (ran : signals.mapM f = .ok later) : List.Forall₂ R signals later := by
  induction signals generalizing later with
  | nil =>
      rw [List.mapM_nil] at ran
      cases ran
      exact .nil
  | cons signal signals ih =>
      rw [List.mapM_cons] at ran
      obtain ⟨first, done, ran⟩ := bind_eq_ok.mp ran
      obtain ⟨rest, others, ran⟩ := bind_eq_ok.mp ran
      cases ran
      exact .cons (each _ _ done) (ih others)

/-- What a rule makes of the values of annotations: where the annotation its row begins with has
the second text as its value, the one its third text names gets the fourth. -/
def ruled (values : String → Option Value) (rule : List String) : String → Option Value :=
  match values (rule.getD 0 "") with
  | some (.string ann) =>
      if ann = rule.getD 1 "" then
        Function.update values (rule.getD 2 "") (some (.string (rule.getD 3 "")))
      else values
  | _ => values

theorem cell_eq_ok {rule : List String} {i : Nat} {text : String}
    (read : cell rule i = .ok text) : rule.getD i "" = text := by
  unfold cell at read
  split at read
  next found =>
    cases read
    simp [List.getD, found]
  · cases read

theorem ruleAnnotations_values {rule : List String} {before later : Annotations}
    (ran : ruleAnnotations rule before = .ok later) : later.get = ruled before.get rule := by
  obtain ⟨key, first, ran⟩ := bind_eq_ok.mp ran
  rw [ruled, cell_eq_ok first]
  cases read : before.get key with
  | none =>
      rw [read] at ran
      cases ran
      rfl
  | some value =>
      rw [read] at ran
      cases value with
      | string ann =>
          obtain ⟨expected, second, ran⟩ := bind_eq_ok.mp ran
          dsimp only
          rw [cell_eq_ok second]
          split at ran
          next same =>
            obtain ⟨target, third, ran⟩ := bind_eq_ok.mp ran
            obtain ⟨value, fourth, ran⟩ := bind_eq_ok.mp ran
            cases ran
            rw [if_pos same, cell_eq_ok third, cell_eq_ok fourth]
            funext k
            by_cases here : k = target
            · subst here
              rw [Function.update_self]
              exact get_insert_self _ _ (by simp)
            · rw [Function.update_of_ne here]
              exact get_insert_ne _ _ here
          next other =>
            cases ran
            rw [if_neg other]
      | _ =>
          obtain ⟨_, _, ran⟩ := bind_eq_ok.mp ran
          cases ran
          rfl

theorem ruleSignal_values {signal later : Signal} {rule : List String}
    (ran : ruleSignal signal rule = .ok later) :
    valueOf later = ruled (valueOf signal) rule := by
  obtain ⟨annotations, read, ran⟩ := bind_eq_ok.mp ran
  obtain ⟨after_, applied, ran⟩ := bind_eq_ok.mp ran
  rw [liftGo_eq_ok] at read
  cases ran
  have given := eq_some_of_deref read
  have before : valueOf signal = annotations.get := by
    funext k
    rw [valueOf, given]
    rfl
  rw [before]
  exact ruleAnnotations_values applied

theorem foldlM_ruleSignal_values {rules : List (List String)} {signal later : Signal}
    (ran : rules.foldlM ruleSignal signal = .ok later) :
    valueOf later = rules.foldl ruled (valueOf signal) := by
  induction rules generalizing signal with
  | nil =>
      cases ran
      rfl
  | cons rule rules ih =>
      rw [List.foldlM_cons] at ran
      obtain ⟨middle, first, ran⟩ := bind_eq_ok.mp ran
      rw [ih ran, ruleSignal_values first, List.foldl_cons]

theorem applyRule_values {rules : List (List String)} {doc : SignalGroupDoc}
    {signals : List Signal} (ran : applyRule rules doc = .ok signals) :
    List.Forall₂ (fun before later => later.signal = before.signal ∧
      valueOf later = rules.tail.foldl ruled (valueOf before)) doc.signals signals := by
  unfold applyRule at ran
  split at ran
  · cases ran
  · apply mapM_forall₂ _ ran
    intro before later applied
    exact ⟨foldlM_ruleSignal_signal applied, foldlM_ruleSignal_values applied⟩

/-- Numbers that count on from the last one that was used. -/
def Numbered (vref : Nat) (numbers : List Nat) (next : Nat) : Prop :=
  numbers = List.range' (vref + 1) numbers.length ∧ next = vref + numbers.length

theorem Numbered.nil (vref : Nat) : Numbered vref [] vref := ⟨rfl, rfl⟩

theorem Numbered.append {vref next last : Nat} {xs ys : List Nat} (first : Numbered vref xs next)
    (second : Numbered next ys last) : Numbered vref (xs ++ ys) last := by
  obtain ⟨listed, rfl⟩ := first
  obtain ⟨later, rfl⟩ := second
  constructor
  · rw [List.length_append, ← List.range'_append_1, ← listed,
      show vref + 1 + xs.length = vref + xs.length + 1 by omega, ← later]
  · rw [List.length_append]
    omega

theorem forall₂_trans {α β γ : Type} {R : α → β → Prop} {S : β → γ → Prop} {xs : List α}
    {ys : List β} {zs : List γ} (first : List.Forall₂ R xs ys) (second : List.Forall₂ S ys zs) :
    List.Forall₂ (fun x z => ∃ y, R x y ∧ S y z) xs zs := by
  induction first generalizing zs with
  | nil =>
      cases second
      exact .nil
  | cons related _ ih =>
      cases second with
      | cons other rest => exact .cons ⟨_, related, other⟩ (ih rest)

def IsExchanged (values : String → Option Value) : Prop :=
  values "fmi_variable_causality" = some (.string "input") ∨
    values "fmi_variable_causality" = some (.string "output")

section Steps

variable (sim : Simulation) (directIndex : Option DirectIndex)

/-- A reference is the offset of its signal in the channel of the group. -/
def Located (labels : AList fun _ : String => String) (name : String) (vref : Nat) : Prop :=
  ∀ di, directIndex = some di → ∃ channel,
    lookupSimBusChannelName sim labels = .ok (.ok channel) ∧
      di.getSignalOffset channel name = (vref, true)

/-- The signals of a group after it was annotated, and the ones that were given a reference. -/
structure AnnotatedAs (labels : AList fun _ : String => String) (given : Signal → Prop)
    (before : List Signal) (vref : Nat) (signals : List AnnotatedSignal) (next : Nat) : Prop where
  each : List.Forall₂ (fun b s => s.signal.signal = b.signal ∧ (s.vref.isSome ↔ given b)) before
    signals
  stored : ∀ s ∈ signals, ∀ v, s.vref = some v →
    valueOf s.signal "fmi_variable_vref" = some (.int v)
  numbered : directIndex = none → Numbered vref (signals.filterMap AnnotatedSignal.vref) next
  located : ∀ s ∈ signals, ∀ v, s.vref = some v →
    Located sim directIndex labels s.signal.signal v

variable {sim directIndex} {labels : AList fun _ : String => String} {given : Signal → Prop}

theorem AnnotatedAs.names {before : List Signal} {vref next : Nat} {signals : List AnnotatedSignal}
    (annotated : AnnotatedAs sim directIndex labels given before vref signals next) :
    signals.map (fun s => s.signal.signal) = before.map Signal.signal := by
  have each := annotated.each
  clear annotated
  induction each with
  | nil => rfl
  | cons same _ ih => rw [List.map_cons, List.map_cons, ih, same.1]

theorem AnnotatedAs.append {before more : List Signal} {vref next last : Nat}
    {signals rest : List AnnotatedSignal}
    (first : AnnotatedAs sim directIndex labels given before vref signals next)
    (second : AnnotatedAs sim directIndex labels given more next rest last) :
    AnnotatedAs sim directIndex labels given (before ++ more) vref (signals ++ rest) last := by
  refine ⟨List.rel_append first.each second.each, ?_, ?_, ?_⟩
  · intro s member
    exact (List.mem_append.mp member).elim (first.stored s) (second.stored s)
  · intro counting
    rw [List.filterMap_append]
    exact (first.numbered counting).append (second.numbered counting)
  · intro s member
    exact (List.mem_append.mp member).elim (first.located s) (second.located s)

theorem AnnotatedAs.passed {signal : Signal} (left : ¬ given signal) (vref : Nat) :
    AnnotatedAs sim directIndex labels given [signal] vref [⟨signal, none⟩] vref := by
  refine ⟨.cons ⟨rfl, ?_⟩ .nil, ?_, fun _ => .nil vref, ?_⟩
  · simpa using left
  · intro s member v assigned
    rw [List.mem_singleton.mp member] at assigned
    cases assigned
  · intro s member v assigned
    rw [List.mem_singleton.mp member] at assigned
    cases assigned

/-- Signals that rules have changed stand for the signals of the group. -/
theorem AnnotatedAs.of_ruled {original : Signal → Prop} {before later : List Signal}
    {vref next : Nat} {signals : List AnnotatedSignal}
    (annotated : AnnotatedAs sim directIndex labels given later vref signals next)
    (same : List.Forall₂ (fun b r => r.signal = b.signal ∧ (given r ↔ original b)) before later) :
    AnnotatedAs sim directIndex labels original before vref signals next := by
  refine ⟨?_, annotated.stored, annotated.numbered, annotated.located⟩
  apply (forall₂_trans same annotated.each).imp
  rintro b s ⟨r, ⟨name, iff⟩, name', iff'⟩
  exact ⟨name'.trans name, iff'.trans iff⟩

theorem nextVref_some {name : String} {vref v next : Nat}
    (ran : nextVref sim directIndex labels name vref = .ok (some v, next)) :
    (directIndex = none → Numbered vref [v] next) ∧ Located sim directIndex labels name v := by
  unfold nextVref at ran
  cases directIndex with
  | none =>
      cases ran
      refine ⟨fun _ => ⟨rfl, rfl⟩, ?_⟩
      intro di absent
      cases absent
  | some di =>
      constructor
      · intro absent
        cases absent
      rintro _ ⟨⟩
      obtain ⟨looked, found, ran⟩ := bind_eq_ok.mp ran
      rw [liftGo_eq_ok] at found
      cases looked with
      | error text => cases ran
      | ok channel =>
          refine ⟨channel, found, ?_⟩
          rcases located : di.getSignalOffset channel name with ⟨offset, present⟩
          simp only [located] at ran
          cases present with
          | true =>
              cases ran
              rfl
          | false => cases ran

theorem nextVref_none {name : String} {vref next : Nat}
    (ran : nextVref sim directIndex labels name vref = .ok (none, next)) :
    next = vref ∧ ¬ ∃ v, Located sim directIndex labels name v := by
  unfold nextVref at ran
  cases directIndex with
  | none => cases ran
  | some di =>
      obtain ⟨looked, found, ran⟩ := bind_eq_ok.mp ran
      rw [liftGo_eq_ok] at found
      cases looked with
      | error text =>
          cases ran
          refine ⟨rfl, ?_⟩
          rintro ⟨v, located⟩
          obtain ⟨channel, here, _⟩ := located di rfl
          rw [found] at here
          cases here
      | ok channel =>
          rcases offset : di.getSignalOffset channel name with ⟨v, present⟩
          simp only [offset] at ran
          cases present with
          | true => cases ran
          | false =>
              cases ran
              refine ⟨rfl, ?_⟩
              rintro ⟨v, located⟩
              obtain ⟨other, here, there⟩ := located di rfl
              rw [found] at here
              cases here
              rw [offset] at there
              cases there

variable (sim directIndex labels) in
/-- An input or an output gets a reference, unless the index does not have it. -/
def GivenIn (signal : Signal) : Prop :=
  IsExchanged (valueOf signal) ∧ ∃ v, Located sim directIndex labels signal.signal v

theorem AnnotatedAs.assigned {signal : Signal} {annotations : Annotations} {v vref next : Nat}
    (given : GivenIn sim directIndex labels signal)
    (counted : directIndex = none → Numbered vref [v] next)
    (located : Located sim directIndex labels signal.signal v) :
    AnnotatedAs sim directIndex labels (GivenIn sim directIndex labels) [signal] vref
      [⟨⟨signal.signal, some (variableOf annotations signal.signal v)⟩, some v⟩] next := by
  refine ⟨.cons ⟨rfl, iff_of_true rfl given⟩ .nil, ?_, counted, ?_⟩
  · intro s member w assigned
    rw [List.mem_singleton.mp member] at assigned ⊢
    cases assigned
    show (variableOf annotations signal.signal v).get "fmi_variable_vref" = some (.int v)
    rw [variableOf, get_insert_ne _ _ (by decide), get_insert_ne _ _ (by decide)]
    exact get_insert_self _ _ (by simp)
  · intro s member w assigned
    rw [List.mem_singleton.mp member] at assigned ⊢
    cases assigned
    exact located

theorem annotateSignal_annotatedAs {signal : Signal} {s : AnnotatedSignal} {vref next : Nat}
    (ran : annotateSignal sim directIndex labels signal vref = .ok (s, next)) :
    AnnotatedAs sim directIndex labels (GivenIn sim directIndex labels) [signal] vref [s] next := by
  unfold annotateSignal at ran
  obtain ⟨annotations, read, ran⟩ := bind_eq_ok.mp ran
  rw [liftGo_eq_ok] at read
  have stored (k : String) : valueOf signal k = annotations.get k := by
    rw [valueOf, eq_some_of_deref read]
    rfl
  split at ran
  next absent =>
    cases ran
    apply AnnotatedAs.passed
    rintro ⟨exchanged, _⟩
    simp [IsExchanged, stored, Annotations.get, absent] at exchanged
  next value present =>
    obtain ⟨direction, text, ran⟩ := bind_eq_ok.mp ran
    rw [liftGo_eq_ok] at text
    have causality : valueOf signal "fmi_variable_causality" = some (.string direction) := by
      rw [stored, Annotations.get, present, asString_eq_ok text]
    split at ran
    next exchanged =>
      have isExchanged : IsExchanged (valueOf signal) := by
        simpa [IsExchanged, causality] using exchanged
      obtain ⟨⟨assigned, after_⟩, numbered, ran⟩ := bind_eq_ok.mp ran
      cases assigned with
      | none =>
          cases ran
          obtain ⟨rfl, nowhere⟩ := nextVref_none numbered
          apply AnnotatedAs.passed
          intro given
          exact nowhere given.2
      | some v =>
          obtain ⟨counted, located⟩ := nextVref_some numbered
          cases ran
          exact .assigned ⟨isExchanged, v, located⟩ counted located
    next other =>
      cases ran
      apply AnnotatedAs.passed
      rintro ⟨exchanged, _⟩
      rw [IsExchanged, causality] at exchanged
      simp only [Option.some.injEq, Value.string.injEq] at exchanged
      exact other (by simpa using exchanged)

theorem annotateSignals_annotatedAs {signals : List Signal} {annotated : List AnnotatedSignal}
    {vref next : Nat}
    (ran : annotateSignals sim directIndex labels signals vref = .ok (annotated, next)) :
    AnnotatedAs sim directIndex labels (GivenIn sim directIndex labels) signals vref annotated
      next := by
  induction signals generalizing vref annotated with
  | nil =>
      cases ran
      exact ⟨.nil, by simp, fun _ => .nil _, by simp⟩
  | cons signal signals ih =>
      obtain ⟨⟨first, middle⟩, one, ran⟩ := bind_eq_ok.mp ran
      obtain ⟨⟨rest, last⟩, others, ran⟩ := bind_eq_ok.mp ran
      cases ran
      exact (annotateSignal_annotatedAs one).append (ih others)

theorem unannotated_annotatedAs {doc : SignalGroupDoc} (left : ∀ signal, ¬ given signal)
    (vref : Nat) :
    AnnotatedAs sim directIndex labels given doc.signals vref (unannotated doc).signals vref := by
  refine ⟨?_, ?_, fun _ => ?_, ?_⟩
  · rw [unannotated, List.forall₂_map_right_iff, List.forall₂_same]
    intro signal _
    simpa using left signal
  · intro s member v assigned
    obtain ⟨signal, _, rfl⟩ := List.mem_map.mp member
    cases assigned
  · have nothing : (unannotated doc).signals.filterMap AnnotatedSignal.vref = [] := by
      simp [unannotated, List.filterMap_map]
    rw [nothing]
    exact .nil vref
  · intro s member v assigned
    obtain ⟨signal, _, rfl⟩ := List.mem_map.mp member
    cases assigned

/-- A group that the command annotates, and makes an index of. -/
def AnnotationCommand.Selects (c : AnnotationCommand) (doc : SignalGroupDoc) : Prop :=
  doc.selected (filterNames c.signalGroups) = true ∧ doc.hasIndex = false

/-- The rules of the command make an input or an output of a signal. -/
def AnnotationCommand.Exchanges (c : AnnotationCommand) (signal : Signal) : Prop :=
  ∃ rules, c.getRuleset = .ok rules ∧ rules ≠ [] ∧
    IsExchanged (rules.tail.foldl ruled (valueOf signal))

variable (sim directIndex) in
def AnnotationCommand.Gives (c : AnnotationCommand) (doc : SignalGroupDoc) (signal : Signal) :
    Prop :=
  c.Selects doc ∧ c.Exchanges signal ∧ ∃ v, Located sim directIndex doc.labels signal.signal v

theorem annotateSignalgroup_annotatedAs {c : AnnotationCommand} {doc : SignalGroupDoc}
    (selected : c.Selects doc) {annotated : AnnotatedDoc} {vref next : Nat}
    (ran : c.annotateSignalgroup sim directIndex doc vref = .ok (annotated, next)) :
    annotated.doc = doc ∧ AnnotatedAs sim directIndex doc.labels (c.Gives sim directIndex doc)
      doc.signals vref annotated.signals next := by
  obtain ⟨rules, ruleset, ran⟩ := bind_eq_ok.mp ran
  split at ran
  next some_rules =>
    obtain ⟨later, applied, ran⟩ := bind_eq_ok.mp ran
    obtain ⟨⟨signals, after_⟩, done, ran⟩ := bind_eq_ok.mp ran
    cases ran
    refine ⟨rfl, (annotateSignals_annotatedAs done).of_ruled ?_⟩
    apply (applyRule_values applied).imp
    rintro before later ⟨name, values⟩
    refine ⟨name, ?_⟩
    rw [GivenIn, values, name]
    constructor
    · rintro ⟨exchanged, located⟩
      exact ⟨selected, ⟨rules, ruleset, List.length_pos_iff.mp some_rules, exchanged⟩, located⟩
    · rintro ⟨_, ⟨others, same, _, exchanged⟩, located⟩
      rw [ruleset] at same
      cases same
      exact ⟨exchanged, located⟩
  next no_rules =>
    cases ran
    refine ⟨rfl, unannotated_annotatedAs ?_ vref⟩
    rintro signal ⟨_, ⟨others, same, some_rules, _⟩, _⟩
    rw [ruleset] at same
    cases same
    exact no_rules (List.length_pos_iff.mpr some_rules)

theorem annotateSelected_annotatedAs {c : AnnotationCommand} {doc : SignalGroupDoc}
    {annotated : AnnotatedDoc} {vref next : Nat}
    (ran : c.annotateSelected sim directIndex doc vref = .ok (annotated, next)) :
    annotated.doc = doc ∧ AnnotatedAs sim directIndex doc.labels (c.Gives sim directIndex doc)
      doc.signals vref annotated.signals next := by
  unfold AnnotationCommand.annotateSelected at ran
  split at ran
  next selected =>
    have selects : c.Selects doc := by simpa [AnnotationCommand.Selects] using selected
    exact annotateSignalgroup_annotatedAs selects ran
  next left =>
    cases ran
    refine ⟨rfl, unannotated_annotatedAs ?_ vref⟩
    rintro signal ⟨selects, _⟩
    exact left (by simpa [AnnotationCommand.Selects] using selects)

structure AnnotatedGroups (c : AnnotationCommand) (sim : Simulation)
    (directIndex : Option DirectIndex) (docs : List SignalGroupDoc) (vref : Nat)
    (annotated : List AnnotatedDoc) (next : Nat) : Prop where
  docs : annotated.map AnnotatedDoc.doc = docs
  each : ∀ d ∈ annotated, ∃ first last,
    AnnotatedAs sim directIndex d.doc.labels (c.Gives sim directIndex d.doc) d.doc.signals first
      d.signals last
  numbered : directIndex = none →
    Numbered vref (annotated.flatMap fun d => d.signals.filterMap AnnotatedSignal.vref) next

theorem runAnnotateSignalGroups_annotated {c : AnnotationCommand} {docs : List SignalGroupDoc}
    {annotated : List AnnotatedDoc} {vref next : Nat}
    (ran : c.runAnnotateSignalGroups sim directIndex docs vref = .ok (annotated, next)) :
    AnnotatedGroups c sim directIndex docs vref annotated next := by
  induction docs generalizing vref annotated with
  | nil =>
      cases ran
      exact ⟨rfl, by simp, fun _ => .nil _⟩
  | cons doc docs ih =>
      obtain ⟨⟨d, middle⟩, one, ran⟩ := bind_eq_ok.mp ran
      obtain ⟨⟨rest, last⟩, others, ran⟩ := bind_eq_ok.mp ran
      cases ran
      have later := ih others
      obtain ⟨rfl, first⟩ := annotateSelected_annotatedAs one
      refine ⟨by rw [List.map_cons, later.docs], ?_, ?_⟩
      · intro e member
        rcases List.mem_cons.mp member with rfl | member
        · exact ⟨_, _, first⟩
        · exact later.each e member
      · intro counting
        rw [List.flatMap_cons]
        exact (first.numbered counting).append (later.numbered counting)

end Steps

end DseFmi.Generate
