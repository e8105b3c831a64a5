import DseFmi.Generate.ValueReferences

/-!
# What signals declare

The annotations of a signal, read without the steps of a builder. A loop that succeeds adds
what the signals before its end declare.
-/

namespace DseFmi.Generate

open DseFmi.Library

def valueOf (signal : Signal) (k : String) : Option Value :=
  signal.annotations.bind fun annotations => annotations.get k

def vrefsOf (signal : Signal) (k : String) : Option (List Int) :=
  match (valueOf signal k).map Value.toIntSlice with
  | some (.ok vrefs) => vrefs
  | _ => none

/-- What the signals before the end of a loop declare. -/
def declaredBy {δ : Type} (entry : Signal → Option (List δ)) : List Signal → List δ
  | [] => []
  | s :: signals =>
      match entry s with
      | none => []
      | some vars => vars ++ declaredBy entry signals

theorem annotation_eq_ok {s : Signal} {k : String} {value : Option Value}
    (read : s.annotation k = .ok value) : valueOf s k = value := by
  obtain ⟨annotations, stored, same⟩ := bind_eq_ok.mp read
  cases same
  rw [valueOf, eq_some_of_deref stored]
  rfl

theorem asString_eq_ok {value : Option Value} {s : String} (read : Value.asString value = .ok s) :
    value = some (.string s) := by
  unfold Value.asString at read
  split at read
  · cases read
    rfl
  · cases read

theorem asInt_eq_ok {value : Option Value} {n : Int} (read : Value.asInt value = .ok n) :
    value = some (.int n) := by
  unfold Value.asInt at read
  split at read
  · cases read
    rfl
  · cases read

theorem busVrefs_eq_ok {s : Signal} {k : String} {vrefs : Option (List Int)}
    (read : busVrefs s k = .ok vrefs) : vrefsOf s k = vrefs := by
  obtain ⟨value, hvalue, read⟩ := bind_eq_ok.mp read
  rw [vrefsOf, annotation_eq_ok hvalue]
  cases value with
  | none =>
      cases read
      rfl
  | some value =>
      have slice : value.toIntSlice = .ok vrefs := read
      rw [Option.map_some, slice]

/-- A round adds the variables that its signal declares, or stops where it declares none. -/
def Round.Declares {α δ : Type} (describe : α → δ) (entries : Option (List δ)) : Round α → Prop
  | .add vars => entries = some (vars.map describe)
  | .stop _ => entries = none

theorem eachSignal_declared {α δ : Type} {round : Signal → Go (Round α)}
    {entry : Signal → Option (List δ)} {describe : α → δ}
    (declares : ∀ s r, round s = .ok r → r.Declares describe (entry s)) {signals : List Signal}
    {added : List α} {error : Option String}
    (ran : eachSignal round signals = .ok (added, error)) :
    declaredBy entry signals = added.map describe := by
  induction signals generalizing added error with
  | nil =>
      cases ran
      rfl
  | cons s signals ih =>
      obtain ⟨r, first, ran⟩ := bind_eq_ok.mp ran
      have declared := declares s r first
      rw [declaredBy]
      cases r with
      | stop e =>
          cases ran
          rw [show entry s = none from declared]
          rfl
      | add vars =>
          obtain ⟨⟨rest, stop⟩, later, ran⟩ := bind_eq_ok.mp ran
          cases ran
          rw [show entry s = some (vars.map describe) from declared, ih later, List.map_append]

end DseFmi.Generate
