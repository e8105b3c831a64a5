import DseFmi.FmiGateway.Fmi2Parameters
import DseFmi.FmiGateway.Fmi3Parameters

/-!
# The parameters of a model description

In each version of the standard a run writes the parameters it collected, in their order.
-/

namespace DseFmi.FmiGateway

open DseFmi.Generate DseFmi.Library

structure GatewayParameters (c : Gateway) : Prop where
  real : ∀ s ∈ c.realParams, GatewayParameter s
  string : ∀ s ∈ c.stringParams, GatewayParameter s

theorem GatewayParameters.addParameter {c : Gateway} (parameters : GatewayParameters c)
    (type : ParameterType) (name : String) (start : Option String) (key : String) :
    GatewayParameters (c.addParameter type name start key) := by
  cases type with
  | real =>
      refine ⟨?_, parameters.string⟩
      intro s member
      cases List.mem_append.mp member with
      | inl old => exact parameters.real s old
      | inr new => exact ⟨_, _, _, _, List.mem_singleton.mp new⟩
  | string =>
      refine ⟨parameters.real, ?_⟩
      intro s member
      cases List.mem_append.mp member with
      | inl old => exact parameters.string s old
      | inr new => exact ⟨_, _, _, _, List.mem_singleton.mp new⟩

theorem gatewayParameters_collected : Collected GatewayParameters where
  times _ _ _ _ parameters := ⟨parameters.real, parameters.string⟩
  parameter _ type name start parameters :=
    parameters.addParameter type name (some start) scriptParameter

theorem gatewayParameters_createRuntime (runtime : String) :
    GatewayParameters (newFmiGatewayCommand.createRuntime runtime) := by
  have none : ∀ s ∈ ([] : List Signal), GatewayParameter s :=
    fun _ member => absurd member List.not_mem_nil
  unfold Gateway.createRuntime
  split
  · refine ⟨?_, ?_⟩
    · exact fun s member => ⟨_, _, _, _, List.mem_singleton.mp member⟩
    · exact fun s member => ⟨_, _, _, _, List.mem_singleton.mp member⟩
  · exact ⟨none, none⟩

theorem createFmuXml_listed {c : Gateway}
    (realParameters : ∀ s ∈ c.realParams, GatewayParameter s)
    (stringParameters : ∀ s ∈ c.stringParams, GatewayParameter s)
    (unannotated : ∀ sg ∈ c.signalGroupFile, GroupUnannotated sg) {args : Arguments}
    {xml : FmuXml} {channels : List String} (ran : c.createFmuXml args = .ok (xml, channels)) :
    ∃ user, args.annotation = .ok user ∧
      ListedIn c (args.mapOrder.order (mapEntries (mergeAnnotations c.annotations user))) xml := by
  obtain ⟨user, read, ran⟩ := bind_eq_ok.mp ran
  refine ⟨user, ofResult_eq_ok read, ?_⟩
  dsimp only at ran
  split at ran
  · obtain ⟨⟨md, _⟩, built, ran⟩ := bind_eq_ok.mp ran
    cases ran
    exact Fmi2.buildFmi2XmlSignals_listed realParameters stringParameters unannotated
      (ofGo_eq_ok.mp built)
  · split at ran
    · obtain ⟨⟨md, _⟩, built, ran⟩ := bind_eq_ok.mp ran
      cases ran
      exact Fmi3.buildFmi3XmlSignals_listed realParameters stringParameters unannotated
        (ofGo_eq_ok.mp built)
    · cases ran

theorem generate_listed {args : Arguments} {xml : FmuXml} {channels : List String}
    (ran : generate args = .ok (xml, channels)) :
    ∃ c user, newFmiGatewayCommand.collectParameters args = .ok c ∧ args.annotation = .ok user ∧
      ListedIn c (args.mapOrder.order (mapEntries (mergeAnnotations c.annotations user))) xml := by
  obtain ⟨c, collected, ran⟩ := bind_eq_ok.mp ran
  obtain ⟨d, merged, ran⟩ := bind_eq_ok.mp ran
  obtain ⟨⟨state, groups⟩, patched, merged⟩ := bind_eq_ok.mp merged
  cases merged
  have parameters := gatewayParameters_collected.collectParameters
    (gatewayParameters_createRuntime args.runtime) collected
  obtain ⟨user, read, listed⟩ := createFmuXml_listed
    (c := { c with signalIdx := state.vr, signalGroupFile := groups })
    parameters.real parameters.string (patchGroups_unannotated patched) ran
  exact ⟨c, user, collected, read, listed.annotations, listed.string, listed.real⟩

end DseFmi.FmiGateway
