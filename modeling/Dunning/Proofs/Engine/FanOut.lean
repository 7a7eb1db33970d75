import Dunning.Proofs.Engine.Alone
import Dunning.Proofs.Store.Stock
import Mathlib.Algebra.Order.BigOperators.Group.List
import Mathlib.Algebra.Order.Group.Nat

/-!
# Fanning out

An event is fanned out into a task for every flow that reacts to it. A task records the
run of its flow and hands it off, one deed after the other, and between any two of its
deeds other tasks may do theirs. When all have come to an end, those whose runs could not
be recorded are reported, and the ids of the other runs are told in the order of the flows.
-/
namespace Dunning

namespace FanOut

/-- A flow that is executed, under an id and at a time. -/
structure Task where
  flow : Flow
  runId : String
  clock : Instant

/-- How far a task has come. -/
inductive Progress where
  /-- The run is yet to be recorded. -/
  | recording
  /-- The run is recorded, and this is left to be done. -/
  | handingOff (rest : List Deed)
  | failed (problem : EngineProblem)

structure State (σ : Type) where
  store : σ
  /-- The progress of the task whose run has an id. -/
  progress : String → Progress
  /-- What has been done, in the order in which it was done. -/
  trace : List Deed

namespace State

variable {σ : Type} (P : State σ) {t other : Task} (progress : Progress)

/-- A task has come further. -/
def advance (t : Task) : State σ :=
  { P with progress := Function.update P.progress t.runId progress }

theorem progress_advance_self : (P.advance progress t).progress t.runId = progress :=
  Function.update_self ..

theorem progress_advance_of_ne (h : other.runId ≠ t.runId) :
    (P.advance progress t).progress other.runId = P.progress other.runId :=
  Function.update_of_ne h ..

end State

end FanOut

/-- An event with the tasks into which it is fanned out. -/
structure FanOut where
  engine : Engine
  surroundings : Surroundings
  event : Event
  mode : Mode
  tasks : List FanOut.Task

/-- The deeds on behalf of a flow. -/
def deedsFor (flowId : String) (deeds : List Deed) : List Deed :=
  deeds.filter fun deed => deed.flowId == flowId

/-- A store has a run and tells it as it was written, for the event as it reads that. -/
structure Run.KeptBy {σ : Type} [Store σ] [LawfulStore σ] (run : Run) (s : σ) : Prop where
  there : Store.getRun run.id s ≠ .error (.notFound run.id)
  told : ∀ told, Store.getRun run.id s = .ok told ↔ ∃ event,
    LawfulStore.reread σ run.triggerEvent = some event ∧ told = { run with triggerEvent := event }

namespace Run.KeptBy

variable {σ : Type} [Store σ] [LawfulStore σ] {run told : Run} {s s' : σ}

theorem of_same (h : run.KeptBy s) (same : Store.getRun run.id s' = Store.getRun run.id s) :
    run.KeptBy s' where
  there := same ▸ h.there
  told := same ▸ h.told

theorem told_eq (h : run.KeptBy s) (read : Store.getRun run.id s = .ok told) :
    told.log = run.log ∧ told.status = run.status ∧ told.pending = run.pending := by
  obtain ⟨event, -, rfl⟩ := (h.told told).1 read
  exact ⟨rfl, rfl, rfl⟩

end Run.KeptBy

namespace FanOut

variable {σ : Type} (F : FanOut)

/-- What a task brings to the store. -/
def draft (t : Task) : Draft := F.engine.draft t.flow F.event F.mode .event t.runId t.clock

/-- Whether the run of a task reaches the store. -/
def delivers (t : Task) : Bool := F.surroundings.recordRun (F.draft t).run == .delivered

/-- What a task does once its run is recorded. -/
def deeds (t : Task) : List Deed :=
  F.engine.handOff F.surroundings (World.recordedNotice (F.draft t)) (F.draft t)

/-- What a task comes to. -/
def answer (P : State σ) (t : Task) : Except EngineProblem Run :=
  match P.progress t.runId with
  | .failed problem => .error problem
  | _ => .ok (F.draft t).run

/-- A task has done all it had to do, or has failed. -/
def Over (P : State σ) (t : Task) : Prop :=
  P.progress t.runId = .handingOff [] ∨ ∃ problem, P.progress t.runId = .failed problem

/-- The flows with what their tasks come to. -/
def answers (P : State σ) : List (String × Except EngineProblem Run) :=
  F.tasks.map fun t => (t.flow.id, F.answer P t)

/-- The ids that are told in the end. -/
def ids (P : State σ) : List String :=
  (F.answers P).filterMap fun (_, answer) => answer.toOption.map Run.id

/-- All that is done. Failures are reported last. -/
def done (P : State σ) : List Deed :=
  P.trace ++ (F.answers P).filterMap (Engine.failure? F.event.orgId)

/-- What the fan-out comes to when so many runs have been named. -/
def outcome (P : State σ) (named : Nat) : Outcome σ (List String) :=
  ⟨.ok (F.ids P), ⟨P.store, named⟩, F.done P⟩

variable [Store σ]

/-- What one of the tasks may do next. -/
inductive Next : State σ → State σ → Prop where
  | record {P : State σ} {t : Task} (store : σ) (mem : t ∈ F.tasks)
      (turn : P.progress t.runId = .recording)
      (done : F.surroundings.record (F.draft t).run P.store = .ok store) :
      Next P { P.advance (.handingOff (F.deeds t)) t with store := store }
  | fail {P : State σ} {t : Task} (problem : EngineProblem) (mem : t ∈ F.tasks)
      (turn : P.progress t.runId = .recording)
      (refused : F.surroundings.record (F.draft t).run P.store = .error problem) :
      Next P (P.advance (.failed problem) t)
  | act {P : State σ} {t : Task} (deed : Deed) (rest : List Deed) (mem : t ∈ F.tasks)
      (turn : P.progress t.runId = .handingOff (deed :: rest)) :
      Next P { P.advance (.handingOff rest) t with trace := P.trace ++ [deed] }

/-- Nothing has been done yet. -/
def start (s : σ) : State σ := ⟨s, fun _ => .recording, []⟩

abbrev Steps : State σ → State σ → Prop := Relation.ReflTransGen F.Next

/-- No task can do anything anymore. -/
def Ended (P : State σ) : Prop := ∀ Q, ¬F.Next P Q

/-- The tasks are those of the flows that the store lists and the event concerns. Their runs have ids
that are not taken. -/
structure Begins (s : σ) : Prop where
  listed : ∃ found, F.surroundings.findFlows F.event.orgId s = .ok found ∧
    F.tasks.map Task.flow = F.engine.settings.matcher.select found F.event
  distinct : (F.tasks.map Task.runId).Nodup
  fresh : ∀ t ∈ F.tasks, Store.getRun t.runId s = .error (.notFound t.runId)

variable {F}

theorem flowId_of_deeds {t : Task} {deed : Deed} (h : deed ∈ F.deeds t) :
    deed.flowId = t.flow.id := by
  obtain ⟨act, -, rfl⟩ := List.mem_map.1 h
  rfl

theorem deedsFor_append (flowId : String) (before later : List Deed) :
    deedsFor flowId (before ++ later) = deedsFor flowId before ++ deedsFor flowId later :=
  List.filter_append ..

/-- A run whose record is delivered under an id that is not taken is recorded. -/
theorem exists_record [LawfulStore σ] {t : Task} {P : State σ} (delivers : F.delivers t = true)
    (fresh : Store.getRun t.runId P.store = .error (.notFound t.runId)) :
    ∃ store, F.surroundings.record (F.draft t).run P.store = .ok store := by
  obtain ⟨store, hstore, -⟩ := LawfulStore.recordRun_fresh (F.draft t).run P.store fresh
  refine ⟨store, ?_⟩
  unfold Surroundings.record
  rw [eq_of_beq delivers, hstore]
  rfl

theorem delivers_of_record {t : Task} {P : State σ} {store : σ}
    (h : F.surroundings.record (F.draft t).run P.store = .ok store) : F.delivers t = true := by
  unfold Surroundings.record at h
  split at h
  · rename_i hfate
    exact beq_iff_eq.2 hfate
  · cases h
  · cases h

/-- What holds of the task that takes a step and of those with other ids holds of all. -/
theorem forall_tasks {p : Task → Prop} (distinct : (F.tasks.map Task.runId).Nodup) {t : Task}
    (mem : t ∈ F.tasks) (self : p t) (others : ∀ x ∈ F.tasks, x.runId ≠ t.runId → p x) :
    ∀ x ∈ F.tasks, p x := by
  intro x hx
  by_cases hsame : x.runId = t.runId
  · exact List.inj_on_of_nodup_map distinct hx mem hsame ▸ self
  · exact others x hx hsame

/-- How many deeds a task has before it at most. -/
def left (F : FanOut) (P : State σ) (t : Task) : Nat :=
  match P.progress t.runId with
  | .recording => (F.deeds t).length + 1
  | .handingOff rest => rest.length
  | .failed _ => 0

/-- Only the task that takes a step comes further, and it comes closer to its end. -/
theorem left_of_next {P Q : State σ} (h : F.Next P Q) : ∃ t ∈ F.tasks,
    F.left Q t < F.left P t ∧ ∀ other, other.runId ≠ t.runId → F.left Q other = F.left P other := by
  cases h with
  | @record t store mem turn done =>
    refine ⟨t, mem, ?_, fun other hother => ?_⟩
    · simp only [left, turn, State.progress_advance_self]
      exact Nat.lt_succ_self _
    · simp only [left, State.progress_advance_of_ne P _ hother]
  | @fail t problem mem turn refused =>
    refine ⟨t, mem, ?_, fun other hother => ?_⟩
    · simp only [left, turn, State.progress_advance_self]
      exact Nat.succ_pos _
    · simp only [left, State.progress_advance_of_ne P _ hother]
  | @act t deed rest mem turn =>
    refine ⟨t, mem, ?_, fun other hother => ?_⟩
    · simp only [left, turn, State.progress_advance_self]
      exact Nat.lt_succ_self _
    · simp only [left, State.progress_advance_of_ne P _ hother]

/-- Every interleaving of the tasks comes to an end. -/
theorem wellFounded_next (distinct : (F.tasks.map Task.runId).Nodup) :
    WellFounded fun Q P : State σ => F.Next P Q := by
  refine Subrelation.wf (fun {Q P} h => ?_) (measure fun P : State σ =>
    (F.tasks.map (F.left P)).sum).wf
  obtain ⟨t, mem, hless, hothers⟩ := left_of_next h
  refine List.sum_lt_sum _ _ (forall_tasks distinct mem hless.le fun other _ hother => ?_)
    ⟨t, mem, hless⟩
  exact (hothers other hother).le

theorem over_of_ended {P : State σ} (h : F.Ended P) {t : Task} (mem : t ∈ F.tasks) : Over P t := by
  cases turn : P.progress t.runId with
  | recording =>
    cases hwrite : F.surroundings.record (F.draft t).run P.store with
    | error problem => exact absurd (.fail problem mem turn hwrite) (h _)
    | ok store => exact absurd (.record store mem turn hwrite) (h _)
  | handingOff rest =>
    cases rest with
    | nil => exact .inl turn
    | cons deed rest => exact absurd (.act deed rest mem turn) (h _)
  | failed problem => exact .inr ⟨problem, turn⟩

theorem ended_of_over {P : State σ} (h : ∀ t ∈ F.tasks, Over P t) : F.Ended P := by
  intro Q step
  cases step with
  | record store mem turn | fail problem mem turn | act deed rest mem turn =>
    rcases h _ mem with hdone | ⟨problem, hfailed⟩
    · cases turn.symm.trans hdone
    · cases turn.symm.trans hfailed

section Invariant

variable [LawfulStore σ]

/-- Where a task stands: what it has done, and what the store has of it. -/
inductive Stands (F : FanOut) (P : State σ) (t : Task) : Prop where
  | recording (turn : P.progress t.runId = .recording) (idle : deedsFor t.flow.id P.trace = [])
      (unwritten : Store.getRun t.runId P.store = .error (.notFound t.runId))
  | handingOff (rest : List Deed) (turn : P.progress t.runId = .handingOff rest)
      (delivered : F.delivers t = true) (done : deedsFor t.flow.id P.trace ++ rest = F.deeds t)
      (written : (F.draft t).run.KeptBy P.store)
  | failed (problem : EngineProblem) (turn : P.progress t.runId = .failed problem)
      (refused : F.delivers t = false) (idle : deedsFor t.flow.id P.trace = [])
      (unwritten : Store.getRun t.runId P.store = .error (.notFound t.runId))

/-- Every task stands where it would by itself, and nothing is there that is not of a task. -/
structure Sound (F : FanOut) (s : σ) (P : State σ) : Prop where
  stands : ∀ t ∈ F.tasks, F.Stands P t
  owned : ∀ deed ∈ P.trace, ∃ t ∈ F.tasks, deed.flowId = t.flow.id
  kept : ∀ id, (∀ t ∈ F.tasks, t.runId ≠ id) → Store.getRun id P.store = Store.getRun id s

/-- A task that has not moved stands where it stood. -/
theorem Stands.of_same {P Q : State σ} {t : Task} (h : F.Stands P t)
    (progress : Q.progress t.runId = P.progress t.runId)
    (deeds : deedsFor t.flow.id Q.trace = deedsFor t.flow.id P.trace)
    (told : Store.getRun t.runId Q.store = Store.getRun t.runId P.store) : F.Stands Q t := by
  cases h with
  | recording turn idle unwritten =>
    exact .recording (progress.trans turn) (deeds.trans idle) (told.trans unwritten)
  | handingOff rest turn delivered done written =>
    exact .handingOff rest (progress.trans turn) delivered (deeds ▸ done)
      (written.of_same told)
  | failed problem turn refused idle unwritten =>
    exact .failed problem (progress.trans turn) refused (deeds.trans idle) (told.trans unwritten)

/-- A task that is yet to record its run has left nothing behind. -/
theorem Stands.of_recording {P : State σ} {t : Task} (h : F.Stands P t)
    (turn : P.progress t.runId = .recording) :
    deedsFor t.flow.id P.trace = [] ∧
      Store.getRun t.runId P.store = .error (.notFound t.runId) := by
  cases h with
  | recording _ idle unwritten => exact ⟨idle, unwritten⟩
  | handingOff rest turn' => cases turn.symm.trans turn'
  | failed problem turn' => cases turn.symm.trans turn'

theorem Sound.start {s : σ} (begun : F.Begins s) : F.Sound s (FanOut.start s) where
  stands t mem := .recording rfl rfl (begun.fresh t mem)
  owned _ hdeed := by cases hdeed
  kept _ _ := rfl

/-- Whatever a task does next, all stand where they would by themselves. -/
theorem Sound.next {s : σ} {P Q : State σ} (h : F.Sound s P)
    (runIds : (F.tasks.map Task.runId).Nodup) (flowIds : (F.tasks.map fun t => t.flow.id).Nodup)
    (step : F.Next P Q) : F.Sound s Q := by
  cases step with
  | @record t store mem turn done =>
    obtain ⟨hidle, hfresh⟩ := (h.stands t mem).of_recording turn
    obtain ⟨store', hstore', hthere, htold, hothers, -⟩ :=
      LawfulStore.recordRun_fresh (F.draft t).run P.store hfresh
    obtain rfl : store' = store :=
      Except.ok.inj (hstore'.symm.trans (World.recordRun_of_record done))
    refine ⟨forall_tasks runIds mem ?_ fun x hx hother => ?_, h.owned, fun id hid => ?_⟩
    · have hdone : deedsFor t.flow.id P.trace ++ F.deeds t = F.deeds t := by
        rw [hidle, List.nil_append]
      exact .handingOff (F.deeds t) (State.progress_advance_self ..) (delivers_of_record done) hdone
        ⟨hthere, htold⟩
    · exact (h.stands x hx).of_same (State.progress_advance_of_ne P _ hother) rfl
        (hothers x.runId hother)
    · exact (hothers id (hid t mem).symm).trans (h.kept id hid)
  | @fail t problem mem turn refused =>
    refine ⟨forall_tasks runIds mem ?_ fun x hx hother => ?_, h.owned, h.kept⟩
    · obtain ⟨hidle, hfresh⟩ := (h.stands t mem).of_recording turn
      have hrefused : F.delivers t = false := by
        rw [Bool.eq_false_iff]
        intro hdelivers
        obtain ⟨store, hstore⟩ := exists_record hdelivers hfresh
        cases hstore.symm.trans refused
      exact .failed problem (State.progress_advance_self ..) hrefused hidle hfresh
    · exact (h.stands x hx).of_same (State.progress_advance_of_ne P _ hother) rfl rfl
  | @act t deed rest mem turn =>
    cases h.stands t mem with
    | recording turn' => cases turn.symm.trans turn'
    | failed problem turn' => cases turn.symm.trans turn'
    | handingOff rest' turn' delivered done written =>
      obtain rfl : deed :: rest = rest' := Progress.handingOff.inj (turn.symm.trans turn')
      have howner : deed.flowId = t.flow.id :=
        flowId_of_deeds (done ▸ List.mem_append_right _ List.mem_cons_self)
      refine ⟨forall_tasks runIds mem ?_ fun x hx hother => ?_, fun d hd => ?_, h.kept⟩
      · refine .handingOff rest (State.progress_advance_self ..) delivered ?_ written
        rw [← done, deedsFor_append]
        simp [deedsFor, howner]
      · have hflow : x.flow.id ≠ t.flow.id := fun hsame =>
          hother (congrArg Task.runId (List.inj_on_of_nodup_map flowIds hx mem hsame))
        refine (h.stands x hx).of_same (State.progress_advance_of_ne P _ hother) ?_ rfl
        rw [deedsFor_append]
        simp [deedsFor, howner, hflow.symm]
      · rcases List.mem_append.1 hd with hd | hd
        · exact h.owned d hd
        · exact ⟨t, mem, List.mem_singleton.1 hd ▸ howner⟩

theorem Sound.steps {s : σ} {P Q : State σ} (h : F.Sound s P)
    (runIds : (F.tasks.map Task.runId).Nodup) (flowIds : (F.tasks.map fun t => t.flow.id).Nodup)
    (steps : F.Steps P Q) : F.Sound s Q := by
  induction steps with
  | refl => exact h
  | tail _ step ih => exact ih.next runIds flowIds step

end Invariant

end FanOut

end Dunning
