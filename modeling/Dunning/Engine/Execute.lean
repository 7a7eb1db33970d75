import Dunning.Engine.HandOff

/-!
# Executing flows

A flow is walked, its run is written, and only then does anyone else hear of it.
For an event, every live flow of its organization that has a matching trigger is
executed, and one that fails does not keep the others from running.
-/
namespace Dunning

namespace Engine

/-- Execute a flow. The run is named whether or not it can be written. -/
def runFlow [Store σ] (e : Engine) (w : Surroundings) (clock : Instant) (flow : Flow) (event : Event)
    (mode : Mode) (source : RunSource) (r : Records σ) : Outcome σ Run :=
  let named := r.named + 1
  let d := e.draft flow event mode source (e.runId named) clock
  match w.record d.run r.store with
  | .error problem => ⟨.error problem, { r with named := named }, []⟩
  | .ok store =>
      ⟨.ok d.run, ⟨store, named⟩, e.handOff w
        (.runRecorded d.run.id d.run.flowId d.run.orgId d.run.status d.run.log.length) d⟩

/-- The log of a flow that is not there. No run is made of it. -/
def missingFlowLog (flowId : String) (clock : Instant) : List Step :=
  [⟨flowId, none, .skipped, missingFlowText, clock⟩]

/-- Execute one flow by id, and tell its log. -/
def execute [Store σ] (e : Engine) (w : Surroundings) (clock : Instant) (orgId flowId : String)
    (mode : Mode) (event : Event) (r : Records σ) : Outcome σ (List Step) :=
  match w.findFlow orgId flowId r.store with
  | .error problem => r.failed problem
  | .ok none => r.settled (.ok (missingFlowLog flowId clock))
  | .ok (some flow) =>
      let o := e.runFlow w clock flow event mode .manual r
      ⟨o.answer.map Run.log, o.records, o.deeds⟩

/-- The flows executed for an event, each with its answer. -/
structure Attempts (σ : Type) where
  answers : List (String × Except EngineProblem Run)
  records : Records σ
  deeds : List Deed

/-- Execute flows for an event, in order. -/
def attempt [Store σ] (e : Engine) (w : Surroundings) (clock : Instant) (event : Event) (mode : Mode) :
    List Flow → Records σ → Attempts σ
  | [], r => ⟨[], r, []⟩
  | flow :: rest, r =>
      let first := e.runFlow w clock flow event mode .event r
      let others := attempt e w clock event mode rest first.records
      ⟨(flow.id, first.answer) :: others.answers, others.records, first.deeds ++ others.deeds⟩

/-- The report of a flow that could not be executed. -/
def failure? (orgId : String) (attempted : String × Except EngineProblem Run) : Option Deed :=
  match attempted with
  | (flowId, .error problem) => some ⟨flowId, .notified (.flowFailed flowId orgId problem.message)⟩
  | (_, .ok _) => none

/-- Execute every flow that reacts to an event, and tell the ids of the runs. -/
def fanOut [Store σ] (e : Engine) (w : Surroundings) (clock : Instant) (mode : Mode) (event : Event)
    (r : Records σ) : Outcome σ (List String) :=
  match w.findFlows event.orgId r.store with
  | .error problem => r.failed problem
  | .ok flows =>
      let a := e.attempt w clock event mode (e.settings.matcher.select flows event) r
      { answer := .ok (a.answers.filterMap fun (_, answer) => answer.toOption.map Run.id)
        records := a.records
        deeds := a.deeds ++ a.answers.filterMap (failure? event.orgId) }

/-- Take events from a queue, one after the other. One that fails is passed over. -/
def serve [Store σ] (e : Engine) (w : Surroundings) (clock : Instant) (mode : Mode) :
    List Event → Records σ → Outcome σ Unit
  | [], r => r.settled (.ok ())
  | event :: rest, r =>
      let first := e.fanOut w clock mode event r
      let others := serve e w clock mode rest first.records
      { others with deeds := first.deeds ++ others.deeds }

end Engine

end Dunning
