import Dunning.Proofs.Engine.Coherent
import Dunning.Proofs.Engine.Overlap

/-!
# Stored runs are well-formed

Whatever the callers do, and however the flows change in between, the fields of every
stored run agree with each other, its points stand for waits of its log, and it belongs to
the organization of its event. This holds for engines with a common step limit.
-/
namespace Dunning

open WalkState

/-- A coherent run whose points belong to distinct nodes, each of which it has waited at once. -/
structure Run.WellFormed (limit : Nat) (run : Run) : Prop extends run.Coherent limit where
  distinct : (run.pending.map ResumePoint.nodeId).Nodup
  waited : ∀ p ∈ run.pending, entries .waited p.nodeId run.log = 1

/-- What is known of the run that a call is about to write or to continue. -/
def Call.Coherent (limit : Nat) (call : Call) : Prop :=
  match call.stage with
  | .recording d => d.run.Coherent limit
  | .loading c _ => c.run.Coherent limit ∧ c.run.status = .waiting
  | .updating _ d => d.run.Coherent limit
  | _ => True

/-- A run that is about to be recorded belongs to the organization of its event. -/
def Call.Owned (call : Call) : Prop :=
  match call.stage with
  | .recording d => d.run.orgId = d.run.triggerEvent.orgId
  | _ => True

namespace World

variable {σ : Type} [Store σ]

/-- The engines of the calls stay the same, and calls are not forgotten. -/
theorem engines_grow {W W' : World σ} (hnext : Next W W') :
    W.calls.map Call.engine <+: W'.calls.map Call.engine := by
  have hset : ∀ {k : Nat} {call : Call} (stage : Stage), W.calls[k]? = some call →
      (W.calls.set k { call with stage := stage }).map Call.engine = W.calls.map Call.engine := by
    intro k call stage turn
    refine List.ext_getElem? fun i => ?_
    rw [List.getElem?_map, List.getElem?_map, List.getElem?_set]
    split
    · subst i
      obtain ⟨hk, hcall⟩ := List.getElem?_eq_some_iff.1 turn
      simp [hk, hcall]
    · rfl
  cases hnext with
  | save flow => exact List.prefix_rfl
  | execute e w flow event mode source runId clock =>
    rw [List.map_append]
    exact List.prefix_append _ _
  | record k call d store turn stage fresh done =>
    exact (hset (.handingOff (recordedNotice d) d) turn) ▸ List.prefix_rfl
  | read e w runId now run c found due =>
    rw [List.map_append]
    exact List.prefix_append _ _
  | load k call c now clock flow turn stage found =>
    exact (hset (.updating c (c.draft call.engine flow now clock)) turn) ▸ List.prefix_rfl
  | update k call c d store turn stage done =>
    exact (hset (.handingOff (resumedNotice d) d) turn) ▸ List.prefix_rfl
  | handOff k call notice d turn stage => exact (hset .finished turn) ▸ List.prefix_rfl
  | abandon k call turn => exact (hset .finished turn) ▸ List.prefix_rfl

variable [LawfulStore σ]

/-- A run as it is told, seen from its first version. As long as the first version waits the run may
have been continued. -/
structure Begins (σ : Type) [Store σ] [LawfulStore σ] (first run : Run) : Prop where
  orgId : run.orgId = first.orgId
  event : LawfulStore.reread σ first.triggerEvent = some run.triggerEvent
  own : first.orgId = first.triggerEvent.orgId
  closed : first.status ≠ .waiting → run = { first with triggerEvent := run.triggerEvent }

/-- Every stored run began with its first version, and that with its event. -/
structure Founded (W : World σ) : Prop where
  calls : ∀ (k : Nat) (call : Call), W.calls[k]? = some call → call.Owned
  stored : ∀ id run, Store.getRun id W.store = .ok run →
    ∃ first, (W.versions id).head? = some first ∧ Begins σ first run

namespace Founded

/-- A new run is its own first version. -/
theorem recorded {W : World σ} (sound : W.Sound) (h : W.Founded) {k : Nat} {call : Call} {d : Draft}
    {store : σ} (turn : W.calls[k]? = some call) (stage : call.stage = .recording d)
    (fresh : Store.getRun d.run.id W.store = .error (.notFound d.run.id))
    (done : Store.recordRun d.run W.store = .ok store) :
    (W.written k call (recordedNotice d) d store).Founded := by
  obtain ⟨store', hstore', -, htold, hothers, -⟩ :=
    LawfulStore.recordRun_fresh d.run W.store fresh
  obtain rfl : store = store' := Except.ok.inj (done.symm.trans hstore')
  have hown := h.calls k call turn
  rw [Call.Owned, stage] at hown
  refine ⟨forall_calls_set _ h.calls trivial, fun id run hrun => ?_⟩
  rw [versions_written]
  by_cases hid : id = d.run.id
  · subst hid
    obtain ⟨event, hevent, rfl⟩ := (htold run).1 hrun
    rw [sound.untold _ fresh, if_pos rfl]
    exact ⟨d.run, rfl, rfl, hevent, hown, fun _ => rfl⟩
  · rw [if_neg (Ne.symm hid), List.append_nil]
    exact h.stored id run ((hothers id hid).symm.trans hrun)

/-- A run that has been continued began as the stored one did, and that one waits. -/
theorem updated {W : World σ} (sound : W.Sound) (h : W.Founded) {k : Nat} {call : Call}
    {c : Continuation} {d : Draft} {store : σ} (turn : W.calls[k]? = some call)
    (stage : call.stage = .updating c d)
    (done : Store.updateRun d.run c.run.log.length W.store = .ok store) :
    (W.written k call (resumedNotice d) d store).Founded := by
  obtain ⟨old, hread, hwaiting, -, hcontinues, hfound, hothers⟩ := sound.updateRun_ok turn stage done
  refine ⟨forall_calls_set _ h.calls trivial, fun id run hrun => ?_⟩
  rw [versions_written]
  by_cases hid : id = d.run.id
  · subst hid
    obtain rfl : d.run = run := Except.ok.inj (hfound.symm.trans hrun)
    obtain ⟨first, hfirst, hbegins⟩ := h.stored _ old hread
    refine ⟨first, by simp [hfirst], ?_, ?_, hbegins.own, ?_⟩
    · exact (congrArg Run.orgId hcontinues).trans hbegins.orgId
    · rw [hbegins.event]
      exact congrArg some (congrArg Run.triggerEvent hcontinues).symm
    · -- A first version that does not wait is never continued, but this one was.
      intro hover
      have hclosed : old.status = first.status := (congrArg Run.status (hbegins.closed hover) :)
      exact absurd (hclosed.symm.trans hwaiting) hover
  · rw [if_neg (Ne.symm hid), List.append_nil]
    exact h.stored id run ((hothers id hid).symm.trans hrun)

theorem next {W W' : World σ} (sound : W.Sound) (h : W.Founded) (hnext : Next W W') :
    W'.Founded := by
  cases hnext with
  | save flow =>
    exact ⟨h.calls, fun id run hrun =>
      h.stored id run ((LawfulStore.getRun_saveFlow flow id W.store).symm.trans hrun)⟩
  | execute e w flow event mode source runId clock =>
    exact ⟨forall_calls_concat _ h.calls fun _ => rfl, h.stored⟩
  | record k call d store turn stage fresh done => exact h.recorded sound turn stage fresh done
  | read e w runId now run c found due =>
    exact ⟨forall_calls_concat _ h.calls fun _ => trivial, h.stored⟩
  | load k call c now clock flow turn stage found =>
    exact ⟨forall_calls_set _ h.calls trivial, h.stored⟩
  | update k call c d store turn stage done => exact h.updated sound turn stage done
  | handOff k call notice d turn stage =>
    refine ⟨forall_calls_set _ h.calls trivial, fun id run hrun => ?_⟩
    rw [versions_handedOff]
    exact h.stored id run hrun
  | abandon k call turn => exact ⟨forall_calls_set _ h.calls trivial, h.stored⟩

end Founded

theorem founded_of_reachable {W : World σ} (h : W.Reachable) : W.Founded := by
  induction h with
  | refl =>
    refine ⟨fun k call hcall => by simp [start] at hcall, fun id run hrun => ?_⟩
    cases (LawfulStore.getRun_empty id).symm.trans hrun
  | tail hsteps hnext ih => exact ih.next (sound_of_reachable hsteps) hnext

/-- The runs of a world are coherent, those that are stored and those of its calls. -/
structure Orderly (limit : Nat) (W : World σ) : Prop where
  calls : ∀ (k : Nat) (call : Call), W.calls[k]? = some call → call.Coherent limit
  stored : ∀ id run, Store.getRun id W.store = .ok run → run.Coherent limit

namespace Orderly

variable {limit : Nat}

theorem recorded {W : World σ} (h : W.Orderly limit) {k : Nat} {call : Call} {d : Draft} {store : σ}
    (turn : W.calls[k]? = some call) (stage : call.stage = .recording d)
    (fresh : Store.getRun d.run.id W.store = .error (.notFound d.run.id))
    (done : Store.recordRun d.run W.store = .ok store) :
    (W.written k call (recordedNotice d) d store).Orderly limit := by
  obtain ⟨store', hstore', -, htold, hothers, -⟩ :=
    LawfulStore.recordRun_fresh d.run W.store fresh
  obtain rfl : store = store' := Except.ok.inj (done.symm.trans hstore')
  have hcall := h.calls k call turn
  rw [Call.Coherent, stage] at hcall
  refine ⟨forall_calls_set _ h.calls trivial, fun id run hrun => ?_⟩
  by_cases hid : id = d.run.id
  · subst hid
    obtain ⟨event, -, rfl⟩ := (htold run).1 hrun
    exact hcall.of_event
  · exact h.stored id run ((hothers id hid).symm.trans hrun)

theorem updated {W : World σ} (sound : W.Sound) (h : W.Orderly limit) {k : Nat} {call : Call}
    {c : Continuation} {d : Draft} {store : σ} (turn : W.calls[k]? = some call)
    (stage : call.stage = .updating c d)
    (done : Store.updateRun d.run c.run.log.length W.store = .ok store) :
    (W.written k call (resumedNotice d) d store).Orderly limit := by
  obtain ⟨-, -, -, -, -, hfound, hothers⟩ := sound.updateRun_ok turn stage done
  have hcall := h.calls k call turn
  rw [Call.Coherent, stage] at hcall
  refine ⟨forall_calls_set _ h.calls trivial, fun id run hrun => ?_⟩
  by_cases hid : id = d.run.id
  · subst hid
    obtain rfl : d.run = run := Except.ok.inj (hfound.symm.trans hrun)
    exact hcall
  · exact h.stored id run ((hothers id hid).symm.trans hrun)

theorem next {W W' : World σ} (sound : W.Sound) (h : W.Orderly limit)
    (engines : ∀ e ∈ W'.calls.map Call.engine, e.settings.maxSteps = limit) (hnext : Next W W') :
    W'.Orderly limit := by
  have hown : ∀ e ∈ W.calls.map Call.engine, e.settings.maxSteps = limit := fun e he =>
    engines e ((engines_grow hnext).subset he)
  cases hnext with
  | save flow =>
    exact ⟨h.calls, fun id run hrun =>
      h.stored id run ((LawfulStore.getRun_saveFlow flow id W.store).symm.trans hrun)⟩
  | execute e w flow event mode source runId clock =>
    have hmax : e.settings.maxSteps = limit := engines e (by simp)
    exact ⟨forall_calls_concat _ h.calls fun _ =>
      Engine.coherent_draft hmax flow event mode source runId clock, h.stored⟩
  | record k call d store turn stage fresh done => exact h.recorded turn stage fresh done
  | read e w runId now run c found due =>
    obtain ⟨hwaiting, -, rfl⟩ := Run.continuation_eq_some_iff.1 due
    exact ⟨forall_calls_concat _ h.calls fun _ => ⟨h.stored runId run found, hwaiting⟩, h.stored⟩
  | load k call c now clock flow turn stage found =>
    have hcall := h.calls k call turn
    rw [Call.Coherent, stage] at hcall
    have hmax := hown call.engine (List.mem_map_of_mem (List.mem_of_getElem? turn))
    have hdraft := Continuation.coherent_draft hcall.1 hcall.2 hmax flow now clock
    exact ⟨forall_calls_set _ h.calls hdraft, h.stored⟩
  | update k call c d store turn stage done => exact h.updated sound turn stage done
  | handOff k call notice d turn stage =>
    exact ⟨forall_calls_set _ h.calls trivial, h.stored⟩
  | abandon k call turn => exact ⟨forall_calls_set _ h.calls trivial, h.stored⟩

end Orderly

theorem orderly_of_reachable {limit : Nat} {W : World σ} (h : W.Reachable)
    (engines : ∀ call ∈ W.calls, call.engine.settings.maxSteps = limit) : W.Orderly limit := by
  have hall : ∀ e ∈ W.calls.map Call.engine, e.settings.maxSteps = limit := by
    intro e he
    obtain ⟨call, hcall, rfl⟩ := List.mem_map.1 he
    exact engines call hcall
  clear engines
  induction h with
  | refl =>
    refine ⟨fun k call hcall => by simp [start] at hcall, fun id run hrun => ?_⟩
    cases (LawfulStore.getRun_empty id).symm.trans hrun
  | tail hsteps hnext ih =>
    have hbefore := ih fun e he => hall e ((engines_grow hnext).subset he)
    exact hbefore.next (sound_of_reachable hsteps) hall hnext

/-- What the points of a run stand for. -/
theorem wellFormed_of_resumed {limit : Nat} {run : Run} (coherent : run.Coherent limit)
    (once : EnteredOnce run.log) (resumed : ∀ id, Resumed 0 id run.log run.pending) :
    run.WellFormed limit := by
  have hcount : ∀ id, (run.pending.map ResumePoint.nodeId).count id ≤ entries .waited id run.log :=
    fun id => resumed id
  have honce : ∀ id, entries .waited id run.log ≤ 1 := fun id => once.once .waited id (by decide)
  refine ⟨coherent, List.nodup_iff_count_le_one.2 fun id => (hcount id).trans (honce id), ?_⟩
  intro p hp
  have hpending := List.count_pos_iff.2 (List.mem_map_of_mem (f := ResumePoint.nodeId) hp)
  have hwaited := hcount p.nodeId
  have hmost := honce p.nodeId
  omega

/-- Every stored run is well-formed. If it was recorded by a dry run it waits for nothing and has
enrolled nobody, and it belongs to the organization of the event that it was recorded with. The
event that it has now is the one that the store reads of that. -/
theorem stored_run_wellFormed {limit : Nat} {W : World σ} (reachable : W.Reachable)
    (engines : ∀ call ∈ W.calls, call.engine.settings.maxSteps = limit) {id : String} {run : Run}
    (stored : Store.getRun id W.store = .ok run) :
    run.WellFormed limit ∧
      (∀ (e : Engine) (flow : Flow) (event : Event) (source : RunSource) (clock : Instant),
        (W.versions id).head? = some (e.draft flow event .dryRun source id clock).run →
          run.pending = [] ∧ ∀ step ∈ run.log, step.action ≠ .enqueued) ∧
      ∃ first, (W.versions id).head? = some first ∧ run.orgId = first.triggerEvent.orgId ∧
        LawfulStore.reread σ first.triggerEvent = some run.triggerEvent ∧
        (LawfulStore.Retains σ first.triggerEvent → run.orgId = run.triggerEvent.orgId) := by
  have hsound := sound_of_reachable reachable
  have hcoherent := (orderly_of_reachable reachable engines).stored id run stored
  obtain ⟨first, hfirst, hbegins⟩ := (founded_of_reachable reachable).stored id run stored
  have honce : EnteredOnce run.log := hsound.log_eq stored ▸ hsound.once id
  have hresumed := (sourced_of_reachable reachable).stored id run stored
  have horg : run.orgId = first.triggerEvent.orgId := hbegins.orgId.trans hbegins.own
  refine ⟨wellFormed_of_resumed hcoherent honce hresumed, ?_, first, hfirst, horg, hbegins.event,
    LawfulStore.orgId_eq hbegins.event horg⟩
  intro e flow event source clock hdry
  obtain rfl := Option.some.inj (hfirst.symm.trans hdry)
  obtain ⟨hpending, hlog⟩ := e.draft_dryRun flow event source id clock
  have hstatus : (e.draft flow event .dryRun source id clock).run.status ≠ .waiting := by
    intro hwaiting
    exact (Engine.coherent_draft rfl flow event .dryRun source id clock).waiting.1 hwaiting hpending
  have hsame := hbegins.closed hstatus
  refine ⟨(congrArg Run.pending hsame).trans hpending, fun step hstep haction => ?_⟩
  rw [congrArg Run.log hsame] at hstep
  have hmem : step ∈ enqueuedSteps (e.draft flow event .dryRun source id clock).run.log :=
    List.mem_filter.2 ⟨hstep, by simp [haction]⟩
  rw [hlog] at hmem
  cases hmem

namespace sidings

/-- The execution of the flow that is about to be recorded. -/
def executing : Call :=
  ⟨.numbered, .calm, .recording (Engine.numbered.draft sidings (.ofTrigger "acme" .invoiceOverdue)
    .live .manual "run1" .epoch)⟩

/-- The world in which it has been recorded. -/
def recorded : World MemoryStore :=
  (World.begun ⟨MemoryStore.empty.saveFlow sidings, [], []⟩ executing).written 0 executing
    (recordedNotice (Engine.numbered.draft sidings (.ofTrigger "acme" .invoiceOverdue) .live .manual
      "run1" .epoch))
    (Engine.numbered.draft sidings (.ofTrigger "acme" .invoiceOverdue) .live .manual "run1" .epoch)
    (holding run)

theorem reachable_recorded : recorded.Reachable := by
  let listed : World MemoryStore := ⟨MemoryStore.empty.saveFlow sidings, [], []⟩
  have hsave : Next start listed := .save start sidings
  have hexecute : Next listed (listed.begun executing) :=
    .execute listed .numbered .calm sidings (.ofTrigger "acme" .invoiceOverdue) .live .manual "run1"
      .epoch
  have hrecord : Next (listed.begun executing) recorded :=
    .record _ 0 executing _ (holding run) rfl rfl rfl rfl
  exact .tail (.tail (.tail .refl hsave) hexecute) hrecord

end sidings

open sidings in
/-- The run that waits at three nodes, as it is stored. -/
theorem stored_run_wellFormed_sidings : recorded.Reachable ∧
    (∀ call ∈ recorded.calls, call.engine.settings.maxSteps = 500) ∧
    Store.getRun "run1" recorded.store = .ok run ∧ run.WellFormed 500 ∧ run.pending.length = 3 := by
  have hengines : ∀ call ∈ recorded.calls, call.engine.settings.maxSteps = 500 := by
    intro call hcall
    rw [List.mem_singleton.1 hcall]
    rfl
  have hstored : Store.getRun "run1" recorded.store = .ok run := rfl
  have hformed := (stored_run_wellFormed reachable_recorded hengines hstored).1
  exact ⟨reachable_recorded, hengines, hstored, hformed, by cbv⟩

end World

end Dunning
