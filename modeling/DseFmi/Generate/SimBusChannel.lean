import DseFmi.Generate.SignalGroupIndex

/-!
# The channel of a signal group

A signal group belongs to the channel of the first model instance whose selectors are all found
among its labels. A channel without selectors has those of the model.
-/

namespace DseFmi.Generate

structure StackModel where
  name : String
  model : String
  channels : Option (List Channel)

structure ModelDoc where
  name : String
  channels : Option (List Channel)

structure Simulation where
  stackDocs : List (Option (List StackModel))
  models : List ModelDoc

/-- The channel whose selectors are compared: the last one of the model definitions that has the
same alias, if the instance has no selectors itself. -/
def selectorChannel (models : List ModelDoc) (model : String) (channel : Channel) : Go Channel :=
  match channel.selectors with
  | some _ => .ok channel
  | none => do
      let _ ← deref channel.aliasName
      models.foldlM (fun selected modelDfn =>
        if modelDfn.name ≠ model then .ok selected
        else do
          let channels ← deref modelDfn.channels
          channels.foldlM (fun selected modelChn => do
            let modelAlias ← deref modelChn.aliasName
            let channelAlias ← deref channel.aliasName
            .ok (if modelAlias ≠ channelAlias then selected else modelChn)) selected) channel

/-- How many selectors are found; `none` when one of them has another value. -/
def countSelectors (labels : AList fun _ : String => String) :
    List (Sigma fun _ : String => String) → Nat → Option Nat
  | [], selectorMatchCount => some selectorMatchCount
  | ⟨selector, selectorVal⟩ :: selectors, selectorMatchCount =>
      match labels.lookup selector with
      | none => countSelectors labels selectors selectorMatchCount
      | some labelVal =>
          if selectorVal ≠ labelVal then none
          else countSelectors labels selectors (selectorMatchCount + 1)

/-- The loop over the channels of a model instance. -/
def findChannel (models : List ModelDoc) (labels : AList fun _ : String => String)
    (model : String) : List Channel → Go (Option String)
  | [] => .ok none
  | channel :: channels => do
      let selected ← selectorChannel models model channel
      match selected.selectors with
      | none => findChannel models labels model channels
      | some selectors =>
          if countSelectors labels selectors.entries 0 = some selectors.entries.length then do
            let name ← deref channel.name
            let _ ← deref selected.aliasName
            .ok (some name)
          else findChannel models labels model channels

/-- The loop over the model instances of the stack. -/
def findInstance (models : List ModelDoc) (labels : AList fun _ : String => String) :
    List StackModel → Go (Option String)
  | [] => .ok none
  | model :: instances =>
      if model.name = "simbus" then findInstance models labels instances
      else do
        let channels ← deref model.channels
        match ← findChannel models labels model.model channels with
        | some name => .ok (some name)
        | none => findInstance models labels instances

/-- The channel of the group with some labels, or an error. -/
def lookupSimBusChannelName (sim : Simulation) (labels : AList fun _ : String => String) :
    Go (Except String String) :=
  match sim.stackDocs with
  | [none] => .ok (.error "stack contains no models")
  | [some instances] => do
      match ← findInstance sim.models labels instances with
      | some name => .ok (.ok name)
      | none => .ok (.error "stack contains no Model:Channel with matching selectors")
  | docs =>
      .ok (.error ("simulation folder contains " ++ Nat.repr docs.length ++
        " Stacks, expected 1"))

end DseFmi.Generate
