import Dunning.Engine.HandOff
import Mathlib.Data.List.Basic

/-!
# Who is called when a run is handed off

The dispatcher is called with the requests of the draft, in order, and with all of them
unless it breaks down. It is not called for anything else.
-/
namespace Dunning

/-- The request of a call to the dispatcher. -/
def Act.request? : Act → Option DispatchRequest
  | dispatched request _ => some request
  | _ => none

namespace Engine

theorem dispatchAll_requests (w : Surroundings) (requests : List DispatchRequest) :
    (dispatchAll w requests).1.filterMap Act.request? <+: requests := by
  induction requests with
  | nil => exact List.prefix_rfl
  | cons request rest ih =>
    cases h : w.dispatch request with
    | crashed =>
      simp only [dispatchAll, h, List.filterMap_cons, Act.request?, List.filterMap_nil]
      exact List.prefix_append [request] rest
    | accepted =>
      simpa [dispatchAll, h, DispatchFate.refusal?, Act.request?, List.filterMap_cons] using ih
    | rejected reason =>
      simpa [dispatchAll, h, DispatchFate.refusal?, Act.request?, List.filterMap_cons] using ih
    | unavailable reason =>
      simpa [dispatchAll, h, DispatchFate.refusal?, Act.request?, List.filterMap_cons] using ih

theorem scheduleAll_requests (w : Surroundings) (runId : String) (points : List ResumePoint) :
    (scheduleAll w runId points).1.filterMap Act.request? = [] := by
  induction points with
  | nil => rfl
  | cons point rest ih => cases h : w.schedule runId point <;> simp_all [scheduleAll, Act.request?]

theorem sideEffects_requests (e : Engine) (w : Surroundings) (d : Draft) :
    (e.sideEffects w d).1.filterMap Act.request? <+: d.requests := by
  have hdispatch := dispatchAll_requests w d.requests
  simp only [sideEffects]
  split
  · simpa [List.filterMap_append, scheduleAll_requests] using hdispatch
  · exact hdispatch

/-- What a hand-off asks of the dispatcher is a first part of what the draft asks for. -/
theorem handOff_requests (e : Engine) (w : Surroundings) (notice : Notice) (d : Draft) :
    ((e.handOff w notice d).map Deed.act).filterMap Act.request? <+: d.requests := by
  have heffects := sideEffects_requests e w d
  have hfailure : ∀ lasted : Bool, (if lasted then [] else [Act.notified (.flowFailed d.run.flowId
      d.run.orgId ("side effects of run " ++ d.run.id ++ " failed"))]).filterMap Act.request? =
        [] := by
    intro lasted
    cases lasted <;> rfl
  unfold handOff
  rw [List.map_map]
  have hacts : (Deed.act ∘ fun act => (⟨d.run.flowId, act⟩ : Deed)) = id := rfl
  simpa [hacts, Act.request?, List.filterMap_cons, List.filterMap_append, hfailure] using heffects

end Engine

end Dunning
