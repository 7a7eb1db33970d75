import Dunning.Proofs.Engine.WellFormed

/-!
# Side effects mirror writes

Nobody outside hears of an execution or a resumption before its run is written, and if it
is not written nobody hears of it at all, but for the report of a fan-out. A written run
is reported first. Then there is one request for each enrollment step that the write
added, in the order of the log, with a report behind each one that is refused, and only
then the new points are scheduled.
-/
namespace Dunning

open WalkState

/-- The acts of one request: the call, and the report if it is refused. -/
def Surroundings.send (w : Surroundings) (request : DispatchRequest) : List Act :=
  .dispatched request (w.dispatch request) :: ((w.dispatch request).refusal?.map fun text =>
    .notified (.dispatchFailed request.runId request.nodeId text)).toList

/-- The act of one wake-up. -/
def Surroundings.wake (w : Surroundings) (runId : String) (point : ResumePoint) : Act :=
  .scheduled runId point (w.schedule runId point)

/-- Whether a dispatcher always answers. -/
def Surroundings.Lasting (w : Surroundings) : Prop := ∀ request, w.dispatch request ≠ .crashed

namespace Engine

theorem dispatchAll_of_lasting {w : Surroundings} (lasting : w.Lasting)
    (requests : List DispatchRequest) : dispatchAll w requests = (requests.flatMap w.send, true) := by
  induction requests with
  | nil => rfl
  | cons request rest ih =>
    have hfate := lasting request
    rw [List.flatMap_cons, Surroundings.send, dispatchAll]
    cases h : w.dispatch request with
    | crashed => exact absurd h hfate
    | _ => simp [ih, DispatchFate.refusal?]

/-- Scheduling sends nothing to the dispatcher, and is complete unless the scheduler breaks down. -/
theorem scheduleAll_cases (w : Surroundings) (runId : String) (points : List ResumePoint) :
    (∀ act ∈ (scheduleAll w runId points).1, ∃ p ∈ points, act = w.wake runId p) ∧
      ((∀ p ∈ points, w.schedule runId p ≠ .crashed) →
        scheduleAll w runId points = (points.map (w.wake runId), true)) := by
  induction points with
  | nil => simp [scheduleAll]
  | cons point rest ih =>
    obtain ⟨hacts, hall⟩ := ih
    rw [scheduleAll]
    cases h : w.schedule runId point with
    | crashed =>
      refine ⟨fun act hact => ⟨point, List.mem_cons_self, ?_⟩, fun hlasts => ?_⟩
      · rw [List.mem_singleton.1 hact, Surroundings.wake, h]
      · exact absurd h (hlasts point List.mem_cons_self)
    | _ =>
      have hwake : w.wake runId point = .scheduled runId point (w.schedule runId point) := rfl
      rw [h] at hwake
      refine ⟨fun act hact => ?_, fun hlasts => ?_⟩
      · rcases List.mem_cons.1 hact with rfl | hact
        · exact ⟨point, List.mem_cons_self, hwake.symm⟩
        · obtain ⟨p, hp, hwoken⟩ := hacts act hact
          exact ⟨p, List.mem_cons_of_mem _ hp, hwoken⟩
      · rw [hall fun p hp => hlasts p (List.mem_cons_of_mem _ hp), List.map_cons, hwake]

end Engine

/-- What is done behind the requests of a written run: its new points are scheduled. If the scheduler
breaks down the rest of them is not, and that is reported. -/
structure Woken (e : Engine) (w : Surroundings) (run : Run) (points : List ResumePoint)
    (acts : List Act) : Prop where
  only : ∀ act ∈ acts, (∃ p ∈ points, act = w.wake run.id p) ∨ act = .notified (.flowFailed run.flowId
    run.orgId ("side effects of run " ++ run.id ++ " failed"))
  all : (∀ p ∈ points, w.schedule run.id p ≠ .crashed) →
    acts = if e.hasScheduler then points.map (w.wake run.id) else []

/-- The hand-off of a draft whose requests are all answered. -/
theorem Engine.handOff_of_lasting {w : Surroundings} (lasting : w.Lasting) (e : Engine)
    (notice : Notice) (d : Draft) : ∃ woken, Woken e w d.run d.wakeups woken ∧
      e.handOff w notice d =
        (.notified notice :: (d.requests.flatMap w.send ++ woken)).map fun act => ⟨d.run.flowId, act⟩ := by
  obtain ⟨honly, hall⟩ := scheduleAll_cases w d.run.id d.wakeups
  unfold handOff sideEffects
  rw [dispatchAll_of_lasting lasting]
  cases hscheduler : e.hasScheduler with
  | false => exact ⟨[], ⟨by simp, by simp [hscheduler]⟩, by simp⟩
  | true =>
    let failure := if (scheduleAll w d.run.id d.wakeups).2 then []
      else [Act.notified (.flowFailed d.run.flowId d.run.orgId
        ("side effects of run " ++ d.run.id ++ " failed"))]
    refine ⟨(scheduleAll w d.run.id d.wakeups).1 ++ failure, ⟨fun act hact => ?_, fun hlasts => ?_⟩, ?_⟩
    · rcases List.mem_append.1 hact with hact | hact
      · exact .inl (honly act hact)
      · simp only [failure] at hact
        split at hact
        · cases hact
        · exact .inr (List.mem_singleton.1 hact)
    · simp [failure, hall hlasts, hscheduler]
    · simp [failure]

/-- An execution asks for each enrollment step of its log. -/
theorem Engine.requested_draft (e : Engine) (flow : Flow) (event : Event) (mode : Mode)
    (source : RunSource) (runId : String) (clock : Instant) :
    List.Forall₂
      (Requested ⟨.ofFlow flow, (e.draft flow event mode source runId clock).run.triggerEvent, mode⟩
        runId)
      (enqueuedSteps (e.draft flow event mode source runId clock).run.log)
      (e.draft flow event mode source runId clock).requests := by
  let start := WalkState.start runId e.settings.maxSteps (e.suspends mode) clock
  let j : Journey := ⟨.ofFlow flow, { event with orgId := flow.orgId }, mode⟩
  obtain ⟨-, added, asked, hlog, hout, hall⟩ :=
    (steady_extends j runId [] []).walkFlow (Extends.self j start)
  rw [List.nil_append] at hlog hout
  rw [← hlog, ← hout] at hall
  exact hall

/-- A resumption asks for each enrollment step that it adds to the log. -/
theorem Continuation.requested_draft (c : Continuation) (e : Engine) (flow : Option Flow)
    (now clock : Instant) : c.run.log <+: (c.draft e flow now clock).run.log ∧
      List.Forall₂ (Requested (c.journey flow) c.run.id)
        (enqueuedSteps ((c.draft e flow now clock).run.log.drop c.run.log.length))
        (c.draft e flow now clock).requests := by
  obtain ⟨-, added, asked, hlog, hout, hall⟩ :=
    (steady_extends (c.journey flow) c.run.id c.run.log []).continuation
      (Extends.self (c.journey flow) (c.start e now clock))
  have hdraft : (c.draft e flow now clock).run.log = c.run.log ++ added := hlog
  have hasked : (c.draft e flow now clock).requests = asked := hout
  rw [hdraft, hasked, List.drop_left]
  exact ⟨List.prefix_append _ _, hall⟩

/-- An operation that nobody hears of and that leaves the store as it was. -/
structure Untouched {σ α : Type} (store : σ) (o : Outcome σ α) : Prop where
  deeds : o.deeds = []
  store : o.records.store = store

/-- The deeds behind the write of a run that has added to a log: the notice, then the requests of the
added enrollment steps, then the wake-ups of all points but the first ones, which the run had
before. -/
structure Mirrored (e : Engine) (w : Surroundings) (graph : Graph) (mode : Mode) (notice : Notice)
    (before : List Step) (run : Run) (had : Nat) (deeds : List Deed) : Prop where
  log : before <+: run.log
  acts : ∃ requests woken,
    List.Forall₂ (Requested ⟨graph, run.triggerEvent, mode⟩ run.id)
      (enqueuedSteps (run.log.drop before.length)) requests ∧
    Woken e w run (run.pending.drop had) woken ∧
    deeds = (.notified notice :: (requests.flatMap w.send ++ woken)).map fun act => ⟨run.flowId, act⟩

/-- The requests with which the dispatcher is called in the course of deeds, in order. -/
def requestsOf (deeds : List Deed) : List DispatchRequest :=
  deeds.filterMap fun deed => deed.act.request?

theorem requestsOf_append (deeds more : List Deed) :
    requestsOf (deeds ++ more) = requestsOf deeds ++ requestsOf more := List.filterMap_append ..

theorem Surroundings.request?_send (w : Surroundings) (requests : List DispatchRequest) :
    (requests.flatMap w.send).filterMap Act.request? = requests := by
  induction requests with
  | nil => rfl
  | cons request rest ih =>
    have hone : (w.send request).filterMap Act.request? = [request] := by
      unfold send
      cases (w.dispatch request).refusal? <;> rfl
    rw [List.flatMap_cons, List.filterMap_append, ih, hone, List.singleton_append]

/-- The dispatcher is called with the requests of the added enrollment steps and no others. -/
theorem Mirrored.requested {e : Engine} {w : Surroundings} {graph : Graph} {mode : Mode}
    {notice : Notice} {before : List Step} {run : Run} {had : Nat} {deeds : List Deed}
    (h : Mirrored e w graph mode notice before run had deeds) :
    List.Forall₂ (Requested ⟨graph, run.triggerEvent, mode⟩ run.id)
      (enqueuedSteps (run.log.drop before.length)) (requestsOf deeds) := by
  obtain ⟨requests, woken, hall, hwoken, rfl⟩ := h.acts
  have hnone : woken.filterMap Act.request? = [] := by
    refine List.filterMap_eq_nil_iff.2 fun act hact => ?_
    rcases hwoken.only act hact with ⟨p, -, rfl⟩ | rfl <;> rfl
  have hrequests : requestsOf ((.notified notice :: (requests.flatMap w.send ++ woken)).map
      fun act => ⟨run.flowId, act⟩) = requests := by
    unfold requestsOf
    rw [List.filterMap_map]
    show (Act.notified notice :: (requests.flatMap w.send ++ woken)).filterMap Act.request? = _
    rw [List.filterMap_cons_none rfl, List.filterMap_append, hnone, w.request?_send,
      List.append_nil]
  rw [hrequests]
  exact hall

namespace Engine

variable {σ : Type} [Store σ]

/-- What the execution of a flow with a draft comes to. -/
inductive Executed (e : Engine) (w : Surroundings) (flow : Flow) (mode : Mode) (d : Draft)
    (r : Records σ) (o : Outcome σ Run) : Prop where
  | refused (problem : EngineProblem) (write : w.record d.run r.store = .error problem)
      (answer : o.answer = .error problem) (nothing : Untouched r.store o)
  | written (write : w.record d.run r.store = .ok o.records.store) (answer : o.answer = .ok d.run)
      (orgId : d.run.orgId = d.run.triggerEvent.orgId)
      (mirror : Mirrored e w (.ofFlow flow) mode
        (.runRecorded d.run.id d.run.flowId d.run.orgId d.run.status d.run.log.length) [] d.run 0
        o.deeds)

/-- What the execution of a flow by its id comes to. -/
inductive ExecutedById (e : Engine) (w : Surroundings) (clock : Instant) (orgId flowId : String)
    (mode : Mode) (event : Event) (r : Records σ) (o : Outcome σ (List Step)) : Prop where
  | unread (problem : StoreProblem) (lookup : w.findFlow orgId flowId r.store = .error problem)
      (nothing : Untouched r.store o)
  | missing (lookup : w.findFlow orgId flowId r.store = .ok none) (nothing : Untouched r.store o)
  | found (flow : Flow) (lookup : w.findFlow orgId flowId r.store = .ok (some flow))
      (run : Outcome σ Run) (executed : Executed e w flow mode
        (e.draft flow event mode .manual (e.runId (r.named + 1)) clock) r run)
      (same : o = ⟨run.answer.map Run.log, run.records, run.deeds⟩)

/-- What the executions of flows for an event come to, with the deeds of those that were written and
the reports of those that were not. -/
inductive Attempted (e : Engine) (w : Surroundings) (clock : Instant) (event : Event) (mode : Mode) :
    List Flow → Records σ → List Deed → List Deed → Records σ → Prop where
  | nil (r : Records σ) : Attempted e w clock event mode [] r [] [] r
  | refused {flow : Flow} {rest : List Flow} {r after : Records σ} {deeds reports : List Deed}
      (o : Outcome σ Run) (problem : EngineProblem) (executed : Executed e w flow mode
        (e.draft flow event mode .event (e.runId (r.named + 1)) clock) r o)
      (answer : o.answer = .error problem) (nothing : Untouched r.store o)
      (others : Attempted e w clock event mode rest o.records deeds reports after) :
      Attempted e w clock event mode (flow :: rest) r deeds
        (⟨flow.id, .notified (.flowFailed flow.id event.orgId problem.message)⟩ :: reports) after
  | written {flow : Flow} {rest : List Flow} {r after : Records σ} {deeds reports : List Deed}
      (o : Outcome σ Run) (run : Run) (executed : Executed e w flow mode
        (e.draft flow event mode .event (e.runId (r.named + 1)) clock) r o)
      (answer : o.answer = .ok run)
      (others : Attempted e w clock event mode rest o.records deeds reports after) :
      Attempted e w clock event mode (flow :: rest) r (o.deeds ++ deeds) reports after

/-- What a fan-out comes to. -/
inductive FannedOut (e : Engine) (w : Surroundings) (clock : Instant) (mode : Mode) (event : Event)
    (r : Records σ) (o : Outcome σ (List String)) : Prop where
  | unread (problem : StoreProblem) (lookup : w.findFlows event.orgId r.store = .error problem)
      (nothing : Untouched r.store o)
  | attempted (flows : List Flow) (lookup : w.findFlows event.orgId r.store = .ok flows)
      (deeds reports : List Deed) (attempts : Attempted e w clock event mode
        (e.settings.matcher.select flows event) r deeds reports o.records)
      (all : o.deeds = deeds ++ reports)

/-- What a resumption comes to. The store that the write finds is the one that a rival, if there is
one, has left. -/
inductive Resumed (e : Engine) (w : Surroundings) (clock : Instant) (runId : String)
    (now : Instant) (rival : Option Rival) (r : Records σ) (o : Outcome σ Run) : Prop where
  | unread (problem : StoreProblem) (read : w.findRun runId r.store = .error problem)
      (nothing : Untouched r.store o)
  | settled (stored : Run) (read : w.findRun runId r.store = .ok stored)
      (status : stored.status ≠ .waiting) (nothing : Untouched r.store o)
  | early (stored : Run) (read : w.findRun runId r.store = .ok stored)
      (due : ∀ p ∈ stored.pending, ¬p.resumeAt.le now = true) (answer : o.answer = .ok stored)
      (nothing : Untouched r.store o)
  | flowless (stored : Run) (read : w.findRun runId r.store = .ok stored) (problem : StoreProblem)
      (lookup : w.findFlow stored.orgId stored.flowId r.store = .error problem)
      (nothing : Untouched r.store o)
  | unmatched (problem : StoreProblem) (race : afterRival rival r.store = .error problem)
      (nothing : Untouched r.store o)
  | refused (stored : Run) (read : w.findRun runId r.store = .ok stored) (c : Continuation)
      (continued : stored.continuation now = .ok (some c)) (flow : Option Flow) (met : σ)
      (race : afterRival rival r.store = .ok met) (problem : StoreProblem)
      (write : w.update (c.draft e flow now clock).run stored.log.length met = .error problem)
      (nothing : Untouched met o)
  | written (stored : Run) (read : w.findRun runId r.store = .ok stored)
      (status : stored.status = .waiting) (due : ∃ p ∈ stored.pending, p.resumeAt.le now = true)
      (c : Continuation) (continued : stored.continuation now = .ok (some c)) (flow : Option Flow)
      (lookup : w.findFlow stored.orgId stored.flowId r.store = .ok flow) (met : σ)
      (race : afterRival rival r.store = .ok met) (run : Run)
      (draft : run = (c.draft e flow now clock).run)
      (write : w.update run stored.log.length met = .ok o.records.store)
      (answer : o.answer = .ok run) (continues : run.Continues stored)
      (mirror : Mirrored e w ((flow.map Graph.ofFlow).getD default) .live
        (.runResumed run.id run.flowId run.status run.log.length) stored.log run
        (stored.pending.filter fun p => !p.resumeAt.le now).length o.deeds)

theorem executed_runFlow {w : Surroundings} (lasting : w.Lasting) (e : Engine) (clock : Instant)
    (flow : Flow) (event : Event) (mode : Mode) (source : RunSource) (r : Records σ) :
    Executed e w flow mode (e.draft flow event mode source (e.runId (r.named + 1)) clock) r
      (e.runFlow w clock flow event mode source r) := by
  let d := e.draft flow event mode source (e.runId (r.named + 1)) clock
  simp only [runFlow]
  split
  · rename_i problem hwrite
    exact .refused problem hwrite rfl ⟨rfl, rfl⟩
  · rename_i store hwrite
    obtain ⟨woken, hwoken, hdeeds⟩ := handOff_of_lasting lasting e
      (.runRecorded d.run.id d.run.flowId d.run.orgId d.run.status d.run.log.length) d
    have hrequested := e.requested_draft flow event mode source (e.runId (r.named + 1)) clock
    exact .written hwrite rfl rfl ⟨List.nil_prefix, d.requests, woken, hrequested, hwoken, hdeeds⟩

theorem executedById_execute {w : Surroundings} (lasting : w.Lasting) (e : Engine) (clock : Instant)
    (orgId flowId : String) (mode : Mode) (event : Event) (r : Records σ) :
    ExecutedById e w clock orgId flowId mode event r
      (e.execute w clock orgId flowId mode event r) := by
  simp only [execute]
  split
  · rename_i problem hlookup
    exact .unread problem hlookup ⟨rfl, rfl⟩
  · rename_i hlookup
    exact .missing hlookup ⟨rfl, rfl⟩
  · rename_i flow hlookup
    exact .found flow hlookup _ (executed_runFlow lasting e clock flow event mode .manual r) rfl

/-- Executions for an event are attempted one after the other. -/
theorem attempted_attempt {w : Surroundings} (lasting : w.Lasting) (e : Engine) (clock : Instant)
    (event : Event) (mode : Mode) (flows : List Flow) (r : Records σ) :
    Attempted e w clock event mode flows r (e.attempt w clock event mode flows r).deeds
      ((e.attempt w clock event mode flows r).answers.filterMap (failure? event.orgId))
      (e.attempt w clock event mode flows r).records := by
  induction flows generalizing r with
  | nil => exact .nil r
  | cons flow rest ih =>
    have hfirst := executed_runFlow lasting e clock flow event mode .event r
    rw [attempt]
    cases hanswer : (e.runFlow w clock flow event mode .event r).answer with
    | ok run =>
      rw [List.filterMap_cons_none rfl]
      exact .written _ run hfirst hanswer (ih _)
    | error problem =>
      have hnothing : Untouched r.store (e.runFlow w clock flow event mode .event r) := by
        cases hfirst with
        | refused _ _ _ nothing => exact nothing
        | written _ answer _ _ => cases hanswer.symm.trans answer
      have hreport : failure? event.orgId (flow.id, .error problem) =
          some ⟨flow.id, .notified (.flowFailed flow.id event.orgId problem.message)⟩ := rfl
      rw [List.filterMap_cons_some hreport, hnothing.deeds, List.nil_append]
      exact .refused _ problem hfirst hanswer hnothing (ih _)

theorem fannedOut_fanOut {w : Surroundings} (lasting : w.Lasting) (e : Engine) (clock : Instant)
    (mode : Mode) (event : Event) (r : Records σ) :
    FannedOut e w clock mode event r (e.fanOut w clock mode event r) := by
  simp only [fanOut]
  split
  · rename_i problem hlookup
    exact .unread problem hlookup ⟨rfl, rfl⟩
  · rename_i flows hlookup
    exact .attempted flows hlookup _ _ (attempted_attempt lasting e clock event mode _ r) rfl

/-- What is done behind the write of a resumption mirrors it. -/
theorem mirrored_handOff {w : Surroundings} (lasting : w.Lasting) (e : Engine) {run : Run}
    {now : Instant} {c : Continuation} (due : run.continuation now = .ok (some c))
    (flow : Option Flow) (clock : Instant) :
    Mirrored e w ((flow.map Graph.ofFlow).getD default) .live
      (World.resumedNotice (c.draft e flow now clock)) run.log (c.draft e flow now clock).run
      (run.pending.filter fun p => !p.resumeAt.le now).length
      (e.handOff w (World.resumedNotice (c.draft e flow now clock)) (c.draft e flow now clock)) := by
  obtain ⟨-, -, hc⟩ := Run.continuation_eq_some_iff.1 due
  have hrun : c.run = run := by rw [hc]
  have hlater : c.later = run.pending.filter fun p => !p.resumeAt.le now := by rw [hc]
  obtain ⟨woken, hwoken, hdeeds⟩ := handOff_of_lasting lasting e
    (World.resumedNotice (c.draft e flow now clock)) (c.draft e flow now clock)
  obtain ⟨hgrows, hrequested⟩ := c.requested_draft e flow now clock
  rw [← hlater, ← hrun]
  exact ⟨hgrows, (c.draft e flow now clock).requests, woken, hrequested, hwoken, hdeeds⟩

theorem resumed_resumeDue {w : Surroundings} (lasting : w.Lasting) (e : Engine) (clock : Instant)
    (runId : String) (now : Instant) (rival : Option Rival) (r : Records σ) :
    Resumed e w clock runId now rival r (e.resumeDue w clock runId now rival r) := by
  simp only [resumeDue]
  split
  · rename_i problem hread
    exact .unread problem hread ⟨rfl, rfl⟩
  · rename_i stored hread
    split
    · rename_i problem hstatus
      exact .settled stored hread (Run.not_waiting_of_continuation hstatus) ⟨rfl, rfl⟩
    · rename_i hnone
      exact .early stored hread (Run.not_due_of_continuation hnone) rfl ⟨rfl, rfl⟩
    · rename_i c hdue
      split
      · rename_i problem hlookup
        exact .flowless stored hread problem hlookup ⟨rfl, rfl⟩
      · rename_i flow hlookup
        split
        · rename_i problem hrace
          exact .unmatched problem hrace ⟨rfl, rfl⟩
        · rename_i met hrace
          split
          · rename_i problem hwrite
            exact .refused stored hread c hdue flow met hrace problem hwrite ⟨rfl, rfl⟩
          · rename_i store hwrite
            obtain ⟨hwaiting, hsome, hc⟩ := Run.continuation_eq_some_iff.1 hdue
            have hcontinues : (c.draft e flow now clock).run.Continues stored := by
              have hrun : c.run = stored := by rw [hc]
              rw [← hrun]
              rfl
            exact .written stored hread hwaiting hsome c hdue flow hlookup met hrace _ rfl hwrite rfl
              hcontinues (mirrored_handOff lasting e hdue flow clock)

end Engine

namespace World

variable {σ : Type} [Store σ] [LawfulStore σ]

/-- A run that is written is the one that its store tells from then on, for the event as the store
reads it, and a stored run that is continued stays with the organization of its event. -/
structure Keeps (w : Surroundings) (W : World σ) : Prop where
  recorded : ∀ (run told : Run) (store : σ),
    Store.getRun run.id W.store = .error (.notFound run.id) → w.record run W.store = .ok store →
    (Store.getRun run.id store = .ok told ↔ ∃ event,
      LawfulStore.reread σ run.triggerEvent = some event ∧
        told = { run with triggerEvent := event })
  updated : ∀ (runId : String) (run stored : Run) (store : σ),
    w.findRun runId W.store = .ok stored → run.Continues stored →
    w.update run stored.log.length W.store = .ok store →
    Store.getRun runId store = .ok run ∧ ∃ first, (W.versions runId).head? = some first ∧
      LawfulStore.reread σ first.triggerEvent = some run.triggerEvent ∧
      (LawfulStore.Retains σ first.triggerEvent → run.orgId = run.triggerEvent.orgId)

theorem keeps_of_reachable {W : World σ} (reachable : W.Reachable) (w : Surroundings) :
    W.Keeps w := by
  refine ⟨fun run told store fresh write => ?_, fun runId run stored store read hrun write => ?_⟩
  · obtain ⟨store', hstore', -, htold, -⟩ := LawfulStore.recordRun_fresh run W.store fresh
    obtain rfl : store' = store := Except.ok.inj (hstore'.symm.trans (recordRun_of_record write))
    exact htold told
  · have hread := getRun_of_findRun read
    obtain rfl : stored.id = runId := ((sound_of_reachable reachable).told runId stored hread).1
    obtain ⟨first, hfirst, hbegins⟩ :=
      (founded_of_reachable reachable).stored stored.id stored hread
    obtain ⟨-, -, hfound, -⟩ := LawfulStore.updateRun_ok run stored stored.log.length W.store store
      (hrun.id_eq ▸ hread) hrun (updateRun_of_update write)
    have hevent : LawfulStore.reread σ first.triggerEvent = some run.triggerEvent :=
      hbegins.event.trans (congrArg some (congrArg Run.triggerEvent hrun).symm)
    have horg : run.orgId = first.triggerEvent.orgId :=
      ((congrArg Run.orgId hrun :).trans hbegins.orgId).trans hbegins.own
    exact ⟨hrun.id_eq ▸ hfound, first, hfirst, hevent, LawfulStore.orgId_eq hevent horg⟩

open Engine in
/-- With a dispatcher that always answers, an operation that does not write is not heard of, and one
that does is reported first, with the run that the store tells from then on. Requests mirror the
enrollment steps that the write added, one by one, and each refusal is reported behind its
request. -/
theorem side_effects_mirror_writes {w : Surroundings} (lasting : w.Lasting) (e : Engine)
    (clock : Instant) (W : World σ) (named : Nat) :
    let r : Records σ := ⟨W.store, named⟩
    (∀ orgId flowId mode event, ExecutedById e w clock orgId flowId mode event r
      (e.execute w clock orgId flowId mode event r)) ∧
    (∀ mode event, FannedOut e w clock mode event r (e.fanOut w clock mode event r)) ∧
    (∀ runId now rival, Engine.Resumed e w clock runId now rival r
      (e.resumeDue w clock runId now rival r)) ∧
    (W.Reachable → W.Keeps w) :=
  ⟨fun orgId flowId mode event => executedById_execute lasting e clock orgId flowId mode event _,
    fun mode event => fannedOut_fanOut lasting e clock mode event _,
    fun runId now rival => resumed_resumeDue lasting e clock runId now rival _,
    fun reachable => keeps_of_reachable reachable w⟩

/-- Two enrollments behind each other. -/
def pair : Flow where
  id := "pair"
  orgId := "acme"
  name := "Pair"
  status := .active
  nodes := [.atOrigin "t" (.trigger ⟨.invoiceOverdue, .none⟩),
    .atOrigin "a" (.enroll ⟨"first", ""⟩), .atOrigin "b" (.enroll ⟨"second", ""⟩)]
  edges := [.plain "ta" "t" "a", .plain "ab" "a" "b"]
  deletedAt := none

namespace pair

/-- Everyone does as asked but the dispatcher, who takes nothing for the first of the two. -/
def picky : Surroundings where
  __ := Surroundings.calm
  dispatch request := if request.nodeId = "a" then .rejected "full" else .accepted

theorem lasting : picky.Lasting := by
  intro request
  show (if request.nodeId = "a" then DispatchFate.rejected "full" else .accepted) ≠ .crashed
  split <;> exact DispatchFate.noConfusion

/-- The flow, and no runs. -/
def listed : World MemoryStore := ⟨MemoryStore.empty.saveFlow pair, [], []⟩

theorem reachable_listed : listed.Reachable := .single (.save start pair)

end pair

open pair in
/-- The flow is executed, the first enrollment is refused, and the second one is asked for all the
same. -/
theorem side_effects_mirror_writes_pair : picky.Lasting ∧ listed.Reachable ∧ listed.Keeps picky ∧
    Engine.ExecutedById .numbered picky .epoch "acme" "pair" .live
      (.ofTrigger "acme" .invoiceOverdue) ⟨listed.store, 0⟩
      (Engine.numbered.execute picky .epoch "acme" "pair" .live (.ofTrigger "acme" .invoiceOverdue)
        ⟨listed.store, 0⟩) ∧
    ((Engine.numbered.execute picky .epoch "acme" "pair" .live (.ofTrigger "acme" .invoiceOverdue)
      ⟨listed.store, 0⟩).deeds.map fun deed => match deed.act with
        | .notified (.runRecorded _ _ _ _ steps) => ("recorded", toString steps)
        | .notified (.dispatchFailed _ nodeId _) => ("failed", nodeId)
        | .dispatched request _ => ("asked", request.sequence)
        | _ => ("other", "")) =
      [("recorded", "3"), ("asked", "first"), ("failed", "a"), ("asked", "second")] := by
  obtain ⟨hexecute, -, -, hkeeps⟩ := side_effects_mirror_writes lasting .numbered .epoch listed 0
  exact ⟨lasting, reachable_listed, hkeeps reachable_listed,
    hexecute "acme" "pair" .live (.ofTrigger "acme" .invoiceOverdue), by cbv⟩

end World

end Dunning
