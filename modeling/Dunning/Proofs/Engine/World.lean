import Dunning.Engine.Execute
import Dunning.Engine.Resume
import Dunning.Proofs.Store.Lawful
import Dunning.Proofs.Engine.HandOff
import Mathlib.Logic.Relation

/-!
# Many callers

Executions and resumptions of any number of callers, cut into the stages between which
others may come in. A call reads, looks up, writes and hands off, each on its own, and
may be given up at any point. Every caller has its own engine and its own surroundings.
What happens outside of the calls is kept in the order in which it happens: runs are
written, and others are called.
-/
namespace Dunning

/-- How far a call has come. -/
inductive Stage where
  /-- A flow has been walked, and its run is to be recorded. -/
  | recording (draft : Draft)
  /-- A waiting run has been read, and its flow is to be looked up. -/
  | loading (continuation : Continuation) (now : Instant)
  /-- The run has been continued, and is to be written. -/
  | updating (continuation : Continuation) (draft : Draft)
  /-- The run is written, and the others are to be told. -/
  | handingOff (notice : Notice) (draft : Draft)
  | finished

/-- An operation of a caller under way. -/
structure Call where
  engine : Engine
  surroundings : Surroundings
  stage : Stage

/-- What the world sees of a call, which is told by its number. -/
inductive Happening where
  | wrote (caller : Nat) (run : Run)
  | acted (caller : Nat) (act : Act)

structure World (σ : Type) where
  store : σ
  /-- In the order in which they began. -/
  calls : List Call
  trace : List Happening

namespace World

variable {σ : Type}

/-- A call has come to another stage. -/
def advance (W : World σ) (caller : Nat) (call : Call) (stage : Stage) : World σ :=
  { W with calls := W.calls.set caller { call with stage := stage } }

/-- A call has written a run. -/
def written (W : World σ) (caller : Nat) (call : Call) (notice : Notice) (draft : Draft)
    (store : σ) :
    World σ where
  store := store
  calls := W.calls.set caller { call with stage := .handingOff notice draft }
  trace := W.trace ++ [.wrote caller draft.run]

/-- A call has told the others. -/
def handedOff (W : World σ) (caller : Nat) (call : Call) (notice : Notice) (draft : Draft) :
    World σ where
  store := W.store
  calls := W.calls.set caller { call with stage := .finished }
  trace := W.trace ++ (call.engine.handOff call.surroundings notice draft).map fun deed =>
    .acted caller deed.act

/-- The report of a new run. -/
def recordedNotice (d : Draft) : Notice :=
  .runRecorded d.run.id d.run.flowId d.run.orgId d.run.status d.run.log.length

/-- The report of a continued run. -/
def resumedNotice (d : Draft) : Notice :=
  .runResumed d.run.id d.run.flowId d.run.status d.run.log.length

/-- The versions of a run, in the order in which they were written. -/
def versions (W : World σ) (runId : String) : List Run :=
  W.trace.filterMap fun
    | .wrote _ run => if run.id = runId then some run else none
    | .acted _ _ => none

/-- The log of a run as it was written last. -/
def logOf (W : World σ) (runId : String) : List Step :=
  ((W.versions runId).getLast?.map Run.log).getD []

/-- The requests with which the dispatcher was called, in order. -/
def requests (W : World σ) : List DispatchRequest :=
  W.trace.filterMap fun
    | .wrote _ _ => none
    | .acted _ act => act.request?

/-- What holds of every call goes on to hold when one of them comes to another stage. -/
theorem forall_calls_set {P : Nat → Call → Prop} {calls : List Call} {k : Nat} (new : Call)
    (h : ∀ i call, calls[i]? = some call → P i call) (hnew : P k new) :
    ∀ i call, (calls.set k new)[i]? = some call → P i call := by
  intro i call hcall
  rw [List.getElem?_set] at hcall
  split at hcall
  · subst i
    split at hcall
    · exact Option.some.inj hcall ▸ hnew
    · cases hcall
  · exact h i call hcall

/-- What holds of every call goes on to hold when another one begins. -/
theorem forall_calls_concat {P : Nat → Call → Prop} {calls : List Call} (new : Call)
    (h : ∀ i call, calls[i]? = some call → P i call) (hnew : ∀ i, P i new) :
    ∀ i call, (calls ++ [new])[i]? = some call → P i call := by
  intro i call hcall
  rcases Nat.lt_or_ge i calls.length with hi | hi
  · rw [List.getElem?_append_left hi] at hcall
    exact h i call hcall
  · rw [List.getElem?_append_right hi, List.getElem?_singleton] at hcall
    split at hcall
    · exact Option.some.inj hcall ▸ hnew i
    · cases hcall

/-- A written version comes after the others of its run. -/
theorem versions_written (W : World σ) (k : Nat) (call : Call) (notice : Notice) (d : Draft)
    (store : σ) (id : String) : (W.written k call notice d store).versions id =
      W.versions id ++ if d.run.id = id then [d.run] else [] := by
  simp only [versions, written, List.filterMap_append]
  by_cases h : d.run.id = id <;> simp [h]

theorem logOf_written (W : World σ) (k : Nat) (call : Call) (notice : Notice) (d : Draft)
    (store : σ) (id : String) : (W.written k call notice d store).logOf id =
      if d.run.id = id then d.run.log else W.logOf id := by
  rw [logOf, versions_written]
  by_cases h : d.run.id = id
  · simp [h]
  · simp [h, logOf]

theorem requests_written (W : World σ) (k : Nat) (call : Call) (notice : Notice) (d : Draft)
    (store : σ) : (W.written k call notice d store).requests = W.requests := by
  simp [requests, written, List.filterMap_append]

/-- Handing off writes nothing. -/
theorem versions_handedOff (W : World σ) (k : Nat) (call : Call) (notice : Notice) (d : Draft)
    (id : String) : (W.handedOff k call notice d).versions id = W.versions id := by
  simp [versions, handedOff, List.filterMap_append]

theorem requests_handedOff (W : World σ) (k : Nat) (call : Call) (notice : Notice) (d : Draft) :
    (W.handedOff k call notice d).requests = W.requests ++
      ((call.engine.handOff call.surroundings notice d).map Deed.act).filterMap Act.request? := by
  simp only [requests, handedOff, List.filterMap_append, List.filterMap_map]
  rfl

variable [Store σ]

/-- An empty store, and nobody calls. -/
def start : World σ := ⟨Store.empty, [], []⟩

/-- What may happen next. -/
inductive Next : World σ → World σ → Prop where
  | save (W : World σ) (flow : Flow) : Next W { W with store := Store.saveFlow flow W.store }
  /-- A flow is walked for an event. -/
  | execute (W : World σ) (e : Engine) (w : Surroundings) (flow : Flow) (event : Event)
      (mode : Mode)
      (source : RunSource) (runId : String) (clock : Instant) :
      Next W { W with calls := W.calls ++
        [⟨e, w, .recording (e.draft flow event mode source runId clock)⟩] }
  /-- A new run is recorded under an id that is not taken. -/
  | record (W : World σ) (k : Nat) (call : Call) (d : Draft) (store : σ)
      (turn : W.calls[k]? = some call) (stage : call.stage = .recording d)
      (fresh : Store.getRun d.run.id W.store = .error (.notFound d.run.id))
      (done : Store.recordRun d.run W.store = .ok store) :
      Next W (W.written k call (recordedNotice d) d store)
  /-- A run that can be continued is read. -/
  | read (W : World σ) (e : Engine) (w : Surroundings) (runId : String) (now : Instant) (run : Run)
      (c : Continuation) (found : Store.getRun runId W.store = .ok run)
      (due : run.continuation now = .ok (some c)) :
      Next W { W with calls := W.calls ++ [⟨e, w, .loading c now⟩] }
  /-- Its flow is looked up, and the run is continued. -/
  | load (W : World σ) (k : Nat) (call : Call) (c : Continuation) (now clock : Instant)
      (flow : Option Flow) (turn : W.calls[k]? = some call) (stage : call.stage = .loading c now)
      (found : Store.getFlow c.run.orgId c.run.flowId W.store = .ok flow) :
      Next W (W.advance k call (.updating c (c.draft call.engine flow now clock)))
  /-- The continued run is written. -/
  | update (W : World σ) (k : Nat) (call : Call) (c : Continuation) (d : Draft) (store : σ)
      (turn : W.calls[k]? = some call) (stage : call.stage = .updating c d)
      (done : Store.updateRun d.run c.run.log.length W.store = .ok store) :
      Next W (W.written k call (resumedNotice d) d store)
  /-- A written run is handed off. -/
  | handOff (W : World σ) (k : Nat) (call : Call) (notice : Notice) (d : Draft)
      (turn : W.calls[k]? = some call) (stage : call.stage = .handingOff notice d) :
      Next W (W.handedOff k call notice d)
  /-- A call ends with a problem, or its caller is gone. -/
  | abandon (W : World σ) (k : Nat) (call : Call) (turn : W.calls[k]? = some call) :
      Next W (W.advance k call .finished)

/-- From one world to a later one. -/
abbrev Steps : World σ → World σ → Prop := Relation.ReflTransGen Next

/-- A world that came about from the empty store. -/
def Reachable (W : World σ) : Prop := Steps start W

end World

end Dunning
