import Dunning.Proofs.Engine.Alone
import Dunning.Proofs.Engine.Tracking

/-!
# Schedules of resumptions

A recorded run is resumed any number of times, by callers whose clocks, dispatchers and
schedulers may do as they please, and whose stores may fail. A resumption that finds
nothing due or fails changes nothing. The others continue the run, each at its time, and
are what the schedule tells of.
-/
namespace Dunning

/-- A call that has continued a run: what it has read, and the time up to which points were due. -/
structure Resumption where
  continuation : Continuation
  now : Instant

variable {σ : Type} [Store σ]

namespace Engine

/-- What a call continues, if it does. -/
def resumption? (e : Engine) (w : Surroundings) (clock : Instant) (runId : String) (now : Instant)
    (r : Records σ) : Option Resumption :=
  match Store.getRun runId r.store with
  | .error _ => none
  | .ok run =>
      match run.continuation now with
      | .error _ => none
      | .ok due =>
          match (e.resumeDue w clock runId now none r).answer with
          | .error _ => none
          | .ok _ => due.map fun c => ⟨c, now⟩

/-- A call that does not continue the run leaves everything as it is. -/
theorem records_of_resumption_none {e : Engine} {w : Surroundings} {clock : Instant}
    {runId : String} {now : Instant} {r : Records σ}
    (h : e.resumption? w clock runId now r = none) :
    (e.resumeDue w clock runId now none r).records = r := by
  cases hrun : w.findRun runId r.store with
  | error problem => simp only [resumeDue, hrun, Records.failed, Records.settled]
  | ok run =>
    cases hdue : run.continuation now with
    | error problem => simp only [resumeDue, hrun, hdue, Records.settled]
    | ok due =>
      cases due with
      | none => simp only [resumeDue, hrun, hdue, Records.settled]
      | some c =>
        cases hflow : w.findFlow run.orgId run.flowId r.store with
        | error problem => simp only [resumeDue, hrun, hdue, hflow, Records.failed, Records.settled]
        | ok flow =>
          cases hupdate : w.update (c.draft e flow now clock).run run.log.length r.store with
          | error problem =>
            simp only [resumeDue, hrun, hdue, hflow, afterRival, hupdate, Records.failed,
              Records.settled]
          | ok store =>
            simp only [resumption?, World.getRun_of_findRun hrun, hdue, resumeDue, hrun, hflow,
              afterRival, hupdate, Option.map_some] at h
            cases h

/-- What a call does that continues the run. -/
theorem spec_of_resumption_some {e : Engine} {w : Surroundings} {clock : Instant} {runId : String}
    {now : Instant} {r : Records σ} {call : Resumption}
    (h : e.resumption? w clock runId now r = some call) : call.now = now ∧
      ∃ run flow store, Store.getRun runId r.store = .ok run ∧
        run.continuation now = .ok (some call.continuation) ∧
        Store.getFlow run.orgId run.flowId r.store = .ok flow ∧
        Store.updateRun (call.continuation.draft e flow now clock).run run.log.length r.store =
          .ok store ∧
        (e.resumeDue w clock runId now none r).records = { r with store := store } := by
  unfold resumption? at h
  split at h
  · cases h
  · rename_i run hread
    split at h
    · cases h
    · rename_i due hdue
      split at h
      · cases h
      · rename_i answer hanswer
        obtain ⟨c, rfl, rfl⟩ := Option.map_eq_some_iff.1 h
        unfold resumeDue at hanswer ⊢
        cases hrun : w.findRun runId r.store with
        | error problem =>
          simp only [hrun, Records.failed, Records.settled] at hanswer
          cases hanswer
        | ok run' =>
          obtain rfl := Except.ok.inj (hread.symm.trans (World.getRun_of_findRun hrun))
          cases hflow : w.findFlow run.orgId run.flowId r.store with
          | error problem =>
            simp only [hrun, hdue, hflow, Records.failed, Records.settled] at hanswer
            cases hanswer
          | ok flow =>
            cases hupdate : w.update (c.draft e flow now clock).run run.log.length r.store with
            | error problem =>
              simp only [hrun, hdue, hflow, afterRival, hupdate, Records.failed, Records.settled]
                at hanswer
              cases hanswer
            | ok store =>
              refine ⟨rfl, run, flow, store, hread, hdue, World.getFlow_of_findFlow hflow,
                World.updateRun_of_update hupdate, ?_⟩
              simp only [hdue, hflow, afterRival, hupdate]

end Engine

/-- The records after calls to resume a run, and what those of them that continued it did. -/
inductive Schedule (e : Engine) (runId : String) (r : Records σ) :
    List Resumption → Records σ → Prop
  | start : Schedule e runId r [] r
  | resume {calls : List Resumption} {r' : Records σ} (before : Schedule e runId r calls r')
      (w : Surroundings) (clock now : Instant) :
      Schedule e runId r (calls ++ (e.resumption? w clock runId now r').toList)
        (e.resumeDue w clock runId now none r').records

/-- A call tells what it has read. -/
theorem Schedule.due {e : Engine} {runId : String} {r r' : Records σ} {calls : List Resumption}
    (h : Schedule e runId r calls r') : ∀ call ∈ calls,
      call.continuation.run.continuation call.now = .ok (some call.continuation) := by
  induction h with
  | start => simp
  | resume before w clock now ih =>
    intro call hcall
    rcases List.mem_append.1 hcall with hcall | hcall
    · exact ih call hcall
    · obtain ⟨hnow, run, -, -, -, hdue, -⟩ :=
        Engine.spec_of_resumption_some (Option.mem_toList.1 hcall)
      have hrun : call.continuation.run = run := by rw [(Run.continuation_eq_some_iff.1 hdue).2.2]
      rw [hrun, hnow]
      exact hdue

/-- Whether a call comes in time: at the time of every due point behind which further waits are
met. -/
def Resumption.Timely (flow : Flow) (call : Resumption) : Prop :=
  (call.continuation.journey (some flow)).Timely call.now call.continuation.due
    (WalkState.enteredIds call.continuation.run.log)

/-- Whether a store reads an event as one that meets the same conditions of a flow. -/
def LawfulStore.Serves (σ : Type) [Store σ] [LawfulStore σ] (flow : Flow) (event : Event) : Prop :=
  ∃ read, LawfulStore.reread σ event = some read ∧ read.StandsFor event flow

namespace LawfulStore.Serves

variable [LawfulStore σ] {flow : Flow} {event : Event}

theorem of_tells (h : LawfulStore.tells σ event) : Serves σ flow event := ⟨event, h, .refl event flow⟩

/-- A flow that does not ask for the amount is served for every event. -/
theorem of_typed (unasked : ∀ c ∈ flow.conditions, c.field ≠ "amount") (typed : event.Typed) :
    Serves σ flow event := by
  obtain ⟨amount, hread⟩ := LawfulStore.exists_reread (σ := σ) event typed
  exact ⟨_, hread, .of_amount unasked event amount⟩

end LawfulStore.Serves

/-- A store that holds a flow and a run of it. -/
structure Holds (flow : Flow) (event : Event) (runId : String) (r : Records σ) (run : Run) :
    Prop where
  listed : Store.getFlow flow.orgId flow.id r.store = .ok (some flow)
  told : Store.getRun runId r.store = .ok run
  id : run.id = runId
  flowId : run.flowId = flow.id
  orgId : run.orgId = flow.orgId
  event : run.triggerEvent = event

variable [LawfulStore σ] {flow : Flow} {event : Event} {runId : String} {r : Records σ} {run : Run}
  {e : Engine}

omit [LawfulStore σ] in
/-- An execution answers with the run of its draft. -/
theorem run_of_runFlow {w : Surroundings} {clock : Instant} {mode : Mode} {source : RunSource}
    (done : (e.runFlow w clock flow event mode source r).answer = .ok run) :
    run = (e.draft flow event mode source (e.runId (r.named + 1)) clock).run := by
  unfold Engine.runFlow at done
  cases hrecord :
      w.record (e.draft flow event mode source (e.runId (r.named + 1)) clock).run r.store with
  | error problem =>
    simp only [hrecord] at done
    cases done
  | ok store =>
    simp only [hrecord] at done
    exact (Except.ok.inj done).symm

/-- An execution that succeeds under an id that was not taken has stored the run of its draft, left the
flows alone and handed off the draft. -/
theorem recorded_of_runFlow {w : Surroundings} {clock : Instant} {mode : Mode} {source : RunSource}
    (fresh : Store.getRun (e.runId (r.named + 1)) r.store =
      .error (.notFound (e.runId (r.named + 1))))
    (done : (e.runFlow w clock flow event mode source r).answer = .ok run) :
    let d := e.draft flow event mode source (e.runId (r.named + 1)) clock
    let o := e.runFlow w clock flow event mode source r
    (∀ told, Store.getRun d.run.id o.records.store = .ok told ↔ ∃ read,
      LawfulStore.reread σ d.run.triggerEvent = some read ∧
        told = { d.run with triggerEvent := read }) ∧
    (∀ orgId flowId, Store.getFlow orgId flowId o.records.store =
      Store.getFlow orgId flowId r.store) ∧
    o.deeds = e.handOff w (World.recordedNotice d) d := by
  intro d o
  cases hrecord : w.record d.run r.store with
  | error problem =>
    simp only [Engine.runFlow, d, hrecord] at done
    cases done
  | ok store =>
    obtain ⟨store', hstore', -, htold, -, hflows⟩ :=
      LawfulStore.recordRun_fresh d.run r.store fresh
    obtain rfl := Except.ok.inj ((World.recordRun_of_record hrecord).symm.trans hstore')
    simp only [o, Engine.runFlow, d, hrecord]
    exact ⟨htold, hflows, rfl⟩

/-- A run is stored as it was executed, for the event as the store reads it. -/
theorem holds_of_runFlow {w : Surroundings} {clock : Instant} {source : RunSource}
    (stored : Store.getFlow flow.orgId flow.id r.store = .ok (some flow))
    (fresh : Store.getRun (e.runId (r.named + 1)) r.store =
      .error (.notFound (e.runId (r.named + 1))))
    {read : Event} (reread : LawfulStore.reread σ { event with orgId := flow.orgId } = some read)
    (done : (e.runFlow w clock flow event .live source r).answer = .ok run) :
    Holds flow read run.id (e.runFlow w clock flow event .live source r).records
      { run with triggerEvent := read } := by
  obtain ⟨htold, hflows, -⟩ := recorded_of_runFlow fresh done
  obtain rfl := run_of_runFlow done
  exact ⟨(hflows _ _).trans stored, (htold _).2 ⟨read, reread, rfl⟩, rfl, rfl, rfl, rfl⟩

/-- A call that continues the run writes the draft. -/
theorem Holds.resume (h : Holds flow event runId r run) {w : Surroundings} {clock now : Instant}
    {call : Resumption} (continued : e.resumption? w clock runId now r = some call) :
    call.now = now ∧ run.continuation now = .ok (some call.continuation) ∧
      Holds flow event runId (e.resumeDue w clock runId now none r).records
        (call.continuation.draft e (some flow) now clock).run := by
  obtain ⟨hnow, run', flow', store, hread, hdue, hflow, hupdate, hrecords⟩ :=
    Engine.spec_of_resumption_some continued
  obtain rfl : run = run' := Except.ok.inj (h.told.symm.trans hread)
  have hlisted : Store.getFlow run.orgId run.flowId r.store = .ok (some flow) := by
    rw [h.orgId, h.flowId]
    exact h.listed
  obtain rfl : some flow = flow' := Except.ok.inj (hlisted.symm.trans hflow)
  have hcrun : call.continuation.run = run := by rw [(Run.continuation_eq_some_iff.1 hdue).2.2]
  have hcontinues : (call.continuation.draft e (some flow) now clock).run.Continues run := by
    rw [← hcrun]
    rfl
  have hid : (call.continuation.draft e (some flow) now clock).run.id = runId :=
    hcontinues.id_eq.trans h.id
  obtain ⟨-, -, hstored, -, hflows⟩ := LawfulStore.updateRun_ok _ run _ r.store store
    (hid.symm ▸ h.told) hcontinues hupdate
  refine ⟨hnow, hdue, ?_⟩
  rw [hrecords]
  refine ⟨(hflows _ _).trans h.listed, hid ▸ hstored, hid, ?_, ?_, ?_⟩
  · exact (congrArg Run.flowId hcontinues).trans h.flowId
  · exact (congrArg Run.orgId hcontinues).trans h.orgId
  · exact (congrArg Run.triggerEvent hcontinues).trans h.event

/-- A timely schedule is tracked to its end, and has no more calls than the drain has legs. -/
theorem Schedule.tracked (scheduling : e.hasScheduler = true) {calls : List Resumption}
    {r' : Records σ} (h : Schedule e runId r calls r') (held : Holds flow event runId r run)
    {t : WalkState} (tracked : Tracks e flow run t) (timely : ∀ call ∈ calls, call.Timely flow) :
    ∃ run' t', Holds flow event runId r' run' ∧ Tracks e flow run' t' ∧
      t.drain ⟨.ofFlow flow, event, .dryRun⟩ = t'.drain ⟨.ofFlow flow, event, .dryRun⟩ ∧
      calls.length + t'.load (.ofFlow flow) ≤ t.load (.ofFlow flow) := by
  induction h with
  | start => exact ⟨run, t, held, tracked, rfl, by simp⟩
  | @resume calls r' before w clock now ih =>
    obtain ⟨run', t', held', tracked', hdrain, hload⟩ :=
      ih fun call hcall => timely call (List.mem_append_left _ hcall)
    cases hcall : e.resumption? w clock runId now r' with
    | none =>
      rw [Engine.records_of_resumption_none hcall]
      exact ⟨run', t', held', tracked', hdrain, by simpa using hload⟩
    | some call =>
      obtain ⟨rfl, hdue, hheld⟩ := held'.resume hcall
      have hcrun : call.continuation.run = run' := by rw [(Run.continuation_eq_some_iff.1 hdue).2.2]
      have htimely := timely call (List.mem_append_right _ (by simp [hcall]))
      rw [Resumption.Timely, Continuation.journey, hcrun, held'.event] at htimely
      obtain ⟨t'', htracked, hrest, hless⟩ :=
        tracked'.resume scheduling held'.event hdue htimely clock
      refine ⟨_, t'', hheld, htracked, hdrain.trans hrest, ?_⟩
      simp only [Option.toList_some, List.length_append, List.length_singleton]
      omega

end Dunning
