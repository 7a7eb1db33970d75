import Dunning.Proofs.Engine.Draft
import Dunning.Proofs.Engine.World

/-!
# A call by itself

An operation of the engine is a call whose stages follow each other with nobody coming
in between. So what is shown of all worlds that come about covers the operations, in
whatever order they are run.
-/
namespace Dunning

/-- What happens during an operation. A run that others are told of has been written. -/
def Outcome.happenings {σ : Type} (caller : Nat) (o : Outcome σ Run) : List Happening :=
  match o.answer with
  | .error _ => []
  | .ok run =>
      if o.deeds.isEmpty then []
      else .wrote caller run :: o.deeds.map fun deed => .acted caller deed.act

theorem Engine.handOff_ne_nil (e : Engine) (w : Surroundings) (notice : Notice) (d : Draft) :
    (e.handOff w notice d).isEmpty = false := by
  simp [handOff]

namespace World

variable {σ : Type}

/-- A call that has just begun. -/
def begun (W : World σ) (call : Call) : World σ := { W with calls := W.calls ++ [call] }

theorem turn_begun (W : World σ) (call : Call) :
    (W.begun call).calls[W.calls.length]? = some call :=
  List.getElem?_concat_length

theorem turn_set {calls : List Call} {k : Nat} {old : Call} (turn : calls[k]? = some old)
    (new : Call) :
    (calls.set k new)[k]? = some new := by
  have hk : k < calls.length := (List.getElem?_eq_some_iff.1 turn).1
  rw [List.getElem?_set_self hk]

variable [Store σ]

/-- A written run that is handed off at once. -/
theorem steps_written (W : World σ) {k : Nat} {call : Call} (turn : W.calls[k]? = some call)
    (notice : Notice) (d : Draft) (store : σ) : ∃ calls, Steps (W.written k call notice d store)
      ⟨store, calls, W.trace ++ .wrote k d.run ::
        (call.engine.handOff call.surroundings notice d).map fun deed => .acted k deed.act⟩ := by
  have hturn := turn_set turn { call with stage := .handingOff notice d }
  have hstep := Next.handOff (W.written k call notice d store) k _ notice d hturn rfl
  have htrace : W.trace ++ .wrote k d.run ::
      (call.engine.handOff call.surroundings notice d).map (fun deed => .acted k deed.act) =
        ((W.written k call notice d store).handedOff k
          { call with stage := .handingOff notice d } notice d).trace := by
    rw [← List.singleton_append, ← List.append_assoc]
    rfl
  rw [htrace]
  exact ⟨_, .single hstep⟩

theorem recordRun_of_record {w : Surroundings} {run : Run} {store store' : σ}
    (h : w.record run store = .ok store') : Store.recordRun run store = .ok store' := by
  unfold Surroundings.record at h
  split at h
  · cases hdone : Store.recordRun run store with
    | error problem => rw [hdone] at h; cases h
    | ok told => rw [hdone] at h; exact congrArg Except.ok (Except.ok.inj h)
  · cases h
  · cases h

theorem updateRun_of_update {w : Surroundings} {run : Run} {priorSteps : Nat} {store store' : σ}
    (h : w.update run priorSteps store = .ok store') :
    Store.updateRun run priorSteps store = .ok store' := by
  unfold Surroundings.update at h
  split at h
  · cases h
  · exact h

theorem getRun_of_findRun {w : Surroundings} {runId : String} {store : σ} {run : Run}
    (h : w.findRun runId store = .ok run) : Store.getRun runId store = .ok run := by
  unfold Surroundings.findRun at h
  split at h
  · cases h
  · exact h

theorem getFlow_of_findFlow {w : Surroundings} {orgId flowId : String} {store : σ}
    {flow : Option Flow} (h : w.findFlow orgId flowId store = .ok flow) :
    Store.getFlow orgId flowId store = .ok flow := by
  unfold Surroundings.findFlow at h
  split at h
  · cases h
  · exact h

/-- Executing a flow under an id that is not taken. -/
theorem steps_runFlow (W : World σ) (e : Engine) (w : Surroundings) (clock : Instant) (flow : Flow)
    (event : Event) (mode : Mode) (source : RunSource) (named : Nat)
    (fresh : Store.getRun (e.runId (named + 1)) W.store =
      .error (.notFound (e.runId (named + 1)))) :
    ∃ calls, Steps W
      ⟨(e.runFlow w clock flow event mode source ⟨W.store, named⟩).records.store, calls, W.trace ++
        (e.runFlow w clock flow event mode source ⟨W.store, named⟩).happenings W.calls.length⟩ := by
  let d := e.draft flow event mode source (e.runId (named + 1)) clock
  cases hrecord : w.record d.run W.store with
  | error problem =>
    refine ⟨W.calls, ?_⟩
    simp only [Engine.runFlow, d, hrecord, Outcome.happenings, List.append_nil]
    exact .refl
  | ok store =>
    let call : Call := ⟨e, w, .recording d⟩
    have hexecute : Next W (W.begun call) := .execute W e w flow event mode source _ clock
    have hwrite : Next (W.begun call) ((W.begun call).written _ call (recordedNotice d) d store) :=
      .record _ _ call d store (turn_begun W call) rfl fresh (recordRun_of_record hrecord)
    obtain ⟨calls, hhand⟩ := steps_written _ (turn_begun W call) (recordedNotice d) d store
    refine ⟨calls, ?_⟩
    simp only [Engine.runFlow, d, hrecord, Outcome.happenings, e.handOff_ne_nil, Bool.false_eq_true,
      if_false]
    exact .head hexecute (.head hwrite hhand)

/-- Continuing a run behind the points that are due. -/
theorem steps_resumeDue (W : World σ) (e : Engine) (w : Surroundings) (clock : Instant)
    (runId : String) (now : Instant) (named : Nat) : ∃ calls, Steps W
      ⟨(e.resumeDue w clock runId now none ⟨W.store, named⟩).records.store, calls, W.trace ++
        (e.resumeDue w clock runId now none ⟨W.store, named⟩).happenings W.calls.length⟩ := by
  have hnothing : ∀ answer : Except EngineProblem Run, ∃ calls, Steps W
      ⟨W.store, calls, W.trace ++ Outcome.happenings W.calls.length
        ⟨answer, (⟨W.store, named⟩ : Records σ), []⟩⟩ := by
    intro answer
    refine ⟨W.calls, ?_⟩
    cases answer <;> simp only [Outcome.happenings, List.isEmpty_nil, if_true, List.append_nil] <;>
      exact .refl
  cases hrun : w.findRun runId W.store with
  | error problem =>
    simpa only [Engine.resumeDue, Records.failed, Records.settled, hrun] using hnothing _
  | ok run =>
    cases hdue : run.continuation now with
    | error problem => simpa only [Engine.resumeDue, Records.settled, hrun, hdue] using hnothing _
    | ok due =>
      cases due with
      | none => simpa only [Engine.resumeDue, Records.settled, hrun, hdue] using hnothing _
      | some c =>
        cases hflow : w.findFlow run.orgId run.flowId W.store with
        | error problem =>
          simpa only [Engine.resumeDue, Records.failed, Records.settled, hrun, hdue, hflow] using
            hnothing _
        | ok flow =>
          let d := c.draft e flow now clock
          cases hupdate : w.update d.run run.log.length W.store with
          | error problem =>
            simpa only [Engine.resumeDue, Records.failed, Records.settled, hrun, hdue,
              hflow, Engine.afterRival, d, hupdate] using hnothing _
          | ok store =>
            obtain ⟨-, -, hc⟩ := Run.continuation_eq_some_iff.1 hdue
            have hcrun : c.run = run := by rw [hc]
            let reading : Call := ⟨e, w, .loading c now⟩
            let writing : Call := ⟨e, w, .updating c d⟩
            let loaded := (W.begun reading).advance W.calls.length reading writing.stage
            have hread : Next W (W.begun reading) :=
              .read W e w runId now run c (getRun_of_findRun hrun) hdue
            have hload : Next (W.begun reading) loaded :=
              .load _ _ reading c now clock flow (turn_begun W reading) rfl
                (hcrun.symm ▸ getFlow_of_findFlow hflow)
            have hturn : loaded.calls[W.calls.length]? = some writing :=
              turn_set (turn_begun W reading) writing
            have hwrite := Next.update loaded _ writing c d store hturn rfl
              (hcrun.symm ▸ updateRun_of_update hupdate)
            obtain ⟨calls, hhand⟩ := steps_written loaded hturn (resumedNotice d) d store
            refine ⟨calls, ?_⟩
            simp only [Engine.resumeDue, hrun, hdue, hflow, Engine.afterRival, d, hupdate,
              Outcome.happenings, e.handOff_ne_nil, Bool.false_eq_true, if_false]
            exact .head hread (.head hload (.head hwrite hhand))

end World

end Dunning
