import Mathlib.Data.List.Infix
import Mathlib.Data.List.TakeWhile
import Mathlib.Tactic.Common

/-!
# Protocols of recorded events

A protocol says which events a phase allows, and the phase an allowed event leads to. A
computation that records its events, and may end its process, conforms to a protocol when
every event it has recorded is allowed, whether it ends the process or not.
-/

namespace DseFmi.Library

structure Protocol (P E : Type) where
  next : P → E → Option P

namespace Protocol

variable {P E : Type}

/-- The phase after some events; `none` when one of them is not allowed. -/
def after (p : Protocol P E) : P → List E → Option P
  | phase, [] => some phase
  | phase, e :: es => (p.next phase e).bind fun phase => after p phase es

variable {p : Protocol P E}

@[simp] theorem after_nil (phase : P) : p.after phase [] = some phase := rfl

theorem after_cons {phase next : P} {e : E} (allowed : p.next phase e = some next) (es : List E) :
    p.after phase (e :: es) = p.after next es := by
  simp [after, allowed]

theorem after_append (phase : P) (first second : List E) :
    p.after phase (first ++ second) =
      (p.after phase first).bind fun phase => p.after phase second := by
  induction first generalizing phase with
  | nil => rfl
  | cons e first ih =>
      rw [List.cons_append, after, after]
      cases p.next phase e with
      | none => rfl
      | some next => exact ih next

theorem after_append_of {phase middle : P} {first : List E}
    (reached : p.after phase first = some middle) (second : List E) :
    p.after phase (first ++ second) = p.after middle second := by
  rw [after_append, reached]
  rfl

/-- Whatever was allowed as a whole was allowed at every moment. -/
theorem after_of_isPrefix {phase last : P} {first whole : List E} (isPrefix : first <+: whole)
    (reached : p.after phase whole = some last) : ∃ middle, p.after phase first = some middle := by
  obtain ⟨second, rfl⟩ := isPrefix
  rw [after_append] at reached
  obtain ⟨middle, here, _⟩ := Option.bind_eq_some_iff.mp reached
  exact ⟨middle, here⟩

/-- An event that no phase allows is not among events that are allowed. -/
theorem not_mem_of_after {e : E} (never : ∀ phase, p.next phase e = none) {events : List E}
    {phase last : P} (reached : p.after phase events = some last) : e ∉ events := by
  intro member
  obtain ⟨first, second, rfl⟩ := List.append_of_mem member
  rw [after_append] at reached
  obtain ⟨here, _, reached⟩ := Option.bind_eq_some_iff.mp reached
  rw [after, never] at reached
  cases reached

/-- An event after which nothing is allowed is made at most once, and as the last one. -/
theorem final_of_after {e : E}
    (final : ∀ phase next, p.next phase e = some next → ∀ other, p.next next other = none)
    {events : List E} {phase last : P} (reached : p.after phase events = some last)
    (made : e ∈ events) : ∃ earlier, events = earlier ++ [e] ∧ e ∉ earlier := by
  obtain ⟨first, second, rfl, absent⟩ := List.eq_append_cons_of_mem made
  refine ⟨first, ?_, absent⟩
  rw [after_append] at reached
  obtain ⟨here, _, reached⟩ := Option.bind_eq_some_iff.mp reached
  obtain ⟨next, leads, reached⟩ := Option.bind_eq_some_iff.mp reached
  cases second with
  | nil => rfl
  | cons other second =>
      rw [after, final here next leads other] at reached
      cases reached

/-- From some phases, the events are allowed and lead to some other phases. -/
def Leads (p : Protocol P E) (before : P → Prop) (events : List E) (after : P → Prop) : Prop :=
  ∀ phase, before phase → ∃ last, p.after phase events = some last ∧ after last

section Leads

variable {before middle after : P → Prop} {first second : List E}

theorem Leads.nil : p.Leads before [] before := fun phase start => ⟨phase, rfl, start⟩

theorem Leads.single {e : E}
    (allowed : ∀ phase, before phase → ∃ next, p.next phase e = some next ∧ after next) :
    p.Leads before [e] after := by
  intro phase start
  obtain ⟨next, leads, right⟩ := allowed phase start
  exact ⟨next, (after_cons leads []).trans (after_nil next), right⟩

theorem Leads.append (leads : p.Leads before first middle)
    (onwards : p.Leads middle second after) : p.Leads before (first ++ second) after := by
  intro phase start
  obtain ⟨here, reached, right⟩ := leads phase start
  obtain ⟨last, finished, done⟩ := onwards here right
  exact ⟨last, (after_append_of reached second).trans finished, done⟩

theorem Leads.weaken {before' after' : P → Prop} (leads : p.Leads before first after)
    (stronger : ∀ phase, before' phase → before phase)
    (weaker : ∀ phase, after phase → after' phase) : p.Leads before' first after' := by
  intro phase start
  obtain ⟨last, reached, right⟩ := leads phase (stronger phase start)
  exact ⟨last, reached, weaker last right⟩

end Leads

end Protocol

/-- The events of a computation, and its result unless it has ended the process. -/
structure Traced (E α : Type) where
  log : List E
  result : Option α

namespace Traced

variable {E P α β ι : Type}

def bind (first : Traced E α) (rest : α → Traced E β) : Traced E β :=
  match first.result with
  | none => ⟨first.log, none⟩
  | some a => ⟨first.log ++ (rest a).log, (rest a).result⟩

instance : Monad (Traced E) where
  pure a := ⟨[], some a⟩
  bind := bind

def record (e : E) : Traced E Unit := ⟨[e], some ()⟩

def stop : Traced E α := ⟨[], none⟩

/-- Events that are made as long as they are available; the first that is not ends the process. -/
def guarded (available : E → Bool) (events : List E) : Traced E Unit :=
  ⟨events.takeWhile available, if events.all available then some () else none⟩

def silent (result : Option α) : Traced E α := ⟨[], result⟩

@[simp] theorem pure_log (a : α) : (pure a : Traced E α).log = [] := rfl

@[simp] theorem pure_result (a : α) : (pure a : Traced E α).result = some a := rfl

@[simp] theorem stop_result : (stop : Traced E α).result = none := rfl

@[simp] theorem silent_result (result : Option α) : (silent result : Traced E α).result = result :=
  rfl

@[simp] theorem record_result (e : E) : (record e).result = some () := rfl

@[simp] theorem bind_result (first : Traced E α) (rest : α → Traced E β) :
    (first >>= rest).result = first.result.bind fun a => (rest a).result := by
  show (bind first rest).result = _
  rw [bind]
  cases first.result <;> rfl

theorem bind_log_of_none {first : Traced E α} (ended : first.result = none)
    (rest : α → Traced E β) : (first >>= rest).log = first.log := by
  show (bind first rest).log = _
  rw [bind, ended]

theorem bind_log_of_some {first : Traced E α} {a : α} (returned : first.result = some a)
    (rest : α → Traced E β) : (first >>= rest).log = first.log ++ (rest a).log := by
  show (bind first rest).log = _
  rw [bind, returned]

/-- Started in one of some phases, a computation makes allowed events, and leaves a phase that
is right for its result. -/
def Conforms (p : Protocol P E) (before : P → Prop) (m : Traced E α) (after : α → P → Prop) :
    Prop :=
  ∀ phase, before phase →
    ∃ last, p.after phase m.log = some last ∧ ∀ a, m.result = some a → after a last

section Rules

variable {p : Protocol P E} {before : P → Prop}

theorem Conforms.pure {a : α} : Conforms p before (pure a) fun b phase => b = a ∧ before phase := by
  intro phase start
  exact ⟨phase, rfl, fun b returned => ⟨(Option.some.inj returned).symm, start⟩⟩

theorem Conforms.stop {after : α → P → Prop} : Conforms p before stop after :=
  fun phase _ => ⟨phase, rfl, fun _ returned => by cases returned⟩

theorem Conforms.silent (result : Option α) :
    Conforms p before (silent result) fun a phase => result = some a ∧ before phase :=
  fun phase start => ⟨phase, rfl, fun _ returned => ⟨returned, start⟩⟩

/-- An event is right when every phase it may be made in allows it. -/
theorem Conforms.record {e : E} {after : Unit → P → Prop}
    (allowed : ∀ phase, before phase → ∃ next, p.next phase e = some next ∧ after () next) :
    Conforms p before (record e) after := by
  intro phase start
  obtain ⟨next, leads, right⟩ := allowed phase start
  refine ⟨next, ?_, fun _ _ => right⟩
  rw [Traced.record, Protocol.after_cons leads, Protocol.after_nil]

/-- Events that are allowed as a whole are allowed up to the one that ends the process. -/
theorem Conforms.guarded {available : E → Bool} {events : List E} {after : P → Prop}
    (leads : p.Leads before events after) :
    Conforms p before (guarded available events) fun _ => after := by
  intro phase start
  obtain ⟨last, reached, right⟩ := leads phase start
  cases complete : events.all available with
  | true =>
      refine ⟨last, ?_, fun _ _ => right⟩
      rwa [Traced.guarded, List.takeWhile_eq_self_iff.mpr (List.all_eq_true.mp complete)]
  | false =>
      obtain ⟨middle, here⟩ := Protocol.after_of_isPrefix (List.takeWhile_prefix available) reached
      refine ⟨middle, here, ?_⟩
      intro _ returned
      simp [Traced.guarded, complete] at returned

theorem Conforms.weaken {m : Traced E α} {before' : P → Prop} {after after' : α → P → Prop}
    (conforms : Conforms p before m after) (stronger : ∀ phase, before' phase → before phase)
    (weaker : ∀ a phase, m.result = some a → after a phase → after' a phase) :
    Conforms p before' m after' := by
  intro phase start
  obtain ⟨last, reached, right⟩ := conforms phase (stronger phase start)
  exact ⟨last, reached, fun a returned => weaker a last returned (right a returned)⟩

theorem Conforms.bind {m : Traced E α} {rest : α → Traced E β} {middle : α → P → Prop}
    {after : β → P → Prop} (first : Conforms p before m middle)
    (second : ∀ a, m.result = some a → Conforms p (middle a) (rest a) after) :
    Conforms p before (m >>= rest) after := by
  intro phase start
  obtain ⟨last, reached, right⟩ := first phase start
  cases returned : m.result with
  | none =>
      refine ⟨last, ?_, ?_⟩
      · rwa [bind_log_of_none returned]
      · intro b ended
        simp [returned] at ended
  | some a =>
      obtain ⟨final, onwards, done⟩ := second a returned last (right a returned)
      refine ⟨final, ?_, ?_⟩
      · rw [bind_log_of_some returned, Protocol.after_append_of reached, onwards]
      · intro b finished
        apply done
        simpa [returned] using finished

/-- What each round of a loop keeps is kept by the loop. -/
theorem Conforms.forM {items : List ι} {body : ι → Traced E PUnit}
    (each : ∀ i ∈ items, Conforms p before (body i) fun _ => before) :
    Conforms p before (forM items body) fun _ => before := by
  induction items with
  | nil => exact Conforms.pure.weaken (fun _ start => start) fun _ _ _ kept => kept.2
  | cons i items ih =>
      rw [List.forM_cons]
      apply (each i List.mem_cons_self).bind
      intro _ _
      exact ih fun other member => each other (List.mem_cons_of_mem i member)

end Rules

end Traced

end DseFmi.Library
