import Dunning.Proofs.Engine.FanOut

/-!
# Flows in turn

An engine that executes the flows of an event one after the other goes through one of the
interleavings of their tasks, the one in which a task begins when the one before it is over.
-/
namespace Dunning

open FanOut

/-- The tasks of flows whose runs are named in turn. -/
def Engine.tasks (e : Engine) (clock : Instant) : List Flow → (named : Nat) → List Task
  | [], _ => []
  | flow :: rest, named => ⟨flow, e.runId (named + 1), clock⟩ :: e.tasks clock rest (named + 1)

namespace FanOut

variable {σ : Type} {F : FanOut}

theorem answer_of_same {P Q : State σ} {t : Task}
    (h : Q.progress t.runId = P.progress t.runId) : F.answer Q t = F.answer P t := by
  unfold answer
  rw [h]

variable [Store σ]

/-- A task may do all that it has to do before any other comes in. -/
theorem steps_handingOff {P : State σ} {t : Task} (mem : t ∈ F.tasks) {rest : List Deed}
    (turn : P.progress t.runId = .handingOff rest) :
    F.Steps P { P.advance (.handingOff []) t with trace := P.trace ++ rest } := by
  induction rest generalizing P with
  | nil =>
    have hsame : P.advance (.handingOff []) t = P := by
      unfold State.advance
      rw [← turn, Function.update_eq_self]
    rw [hsame, List.append_nil]
  | cons deed rest ih =>
    have hothers := ih (P := { P.advance (.handingOff rest) t with trace := P.trace ++ [deed] })
      (State.progress_advance_self ..)
    simp only [State.advance, Function.update_idem, List.append_assoc, List.singleton_append]
      at hothers
    exact .head (.act deed rest mem turn) hothers

/-- An execution is a task whose deeds follow each other. -/
theorem steps_runFlow {P : State σ} {t : Task} (mem : t ∈ F.tasks) {named : Nat}
    (runId : t.runId = F.engine.runId (named + 1)) (turn : P.progress t.runId = .recording) :
    ∃ Q deeds, F.Steps P Q ∧ Over Q t ∧ (∀ id ≠ t.runId, Q.progress id = P.progress id) ∧
      Q.trace = P.trace ++ deeds ∧
      F.engine.runFlow F.surroundings t.clock t.flow F.event F.mode .event ⟨P.store, named⟩ =
        ⟨F.answer Q t, ⟨Q.store, named + 1⟩, deeds⟩ := by
  have hothers : ∀ (progress : Progress) (id : String), id ≠ t.runId →
      (P.advance progress t).progress id = P.progress id :=
    fun progress id hid => Function.update_of_ne hid ..
  have hdraft : F.engine.draft t.flow F.event F.mode .event (F.engine.runId (named + 1)) t.clock =
      F.draft t := by
    rw [← runId]
    rfl
  unfold Engine.runFlow
  simp only [hdraft]
  cases hwrite : F.surroundings.record (F.draft t).run P.store with
  | error problem =>
    have hturn := State.progress_advance_self P (.failed problem) (t := t)
    refine ⟨_, [], .single (.fail problem mem turn hwrite), .inr ⟨problem, hturn⟩, hothers _,
      (List.append_nil _).symm, ?_⟩
    simp only [answer, hturn]
    rfl
  | ok store =>
    have hrecord := Next.record store mem turn hwrite
    have hact := steps_handingOff (P := { P.advance (.handingOff (F.deeds t)) t with store := store })
      mem (State.progress_advance_self P _)
    have hturn := State.progress_advance_self P (.handingOff []) (t := t)
    simp only [State.advance, Function.update_idem] at hact
    refine ⟨_, F.deeds t, .head hrecord hact, .inl hturn, hothers _, rfl, ?_⟩
    simp only [answer, Function.update_self]
    rfl

/-- Executions that follow each other are tasks none of which begins before the one ahead is over. -/
theorem steps_attempt (clock : Instant) {flows : List Flow} {named : Nat} {P : State σ}
    (mem : ∀ t ∈ F.engine.tasks clock flows named, t ∈ F.tasks)
    (distinct : ((F.engine.tasks clock flows named).map Task.runId).Nodup)
    (turn : ∀ t ∈ F.engine.tasks clock flows named, P.progress t.runId = .recording) :
    ∃ Q deeds, F.Steps P Q ∧ (∀ t ∈ F.engine.tasks clock flows named, Over Q t) ∧
      (∀ id ∉ (F.engine.tasks clock flows named).map Task.runId, Q.progress id = P.progress id) ∧
      Q.trace = P.trace ++ deeds ∧
      F.engine.attempt F.surroundings clock F.event F.mode flows ⟨P.store, named⟩ =
        ⟨(F.engine.tasks clock flows named).map fun t => (t.flow.id, F.answer Q t),
          ⟨Q.store, named + flows.length⟩, deeds⟩ := by
  induction flows generalizing named P with
  | nil => exact ⟨P, [], .refl, by simp [Engine.tasks], fun _ _ => rfl, (List.append_nil _).symm, rfl⟩
  | cons flow rest ih =>
    let t : Task := ⟨flow, F.engine.runId (named + 1), clock⟩
    have hmem : t ∈ F.tasks := mem t List.mem_cons_self
    obtain ⟨hnew, hdistinct⟩ := List.nodup_cons.1 distinct
    obtain ⟨Q, deeds, hsteps, hover, hothers, htrace, hrun⟩ :=
      steps_runFlow hmem rfl (turn t List.mem_cons_self)
    have hlater : ∀ x ∈ F.engine.tasks clock rest (named + 1), x.runId ≠ t.runId :=
      fun x hx hsame => hnew (List.mem_map.2 ⟨x, hx, hsame⟩)
    obtain ⟨R, deeds', hsteps', hover', hothers', htrace', hattempt⟩ :=
      ih (fun x hx => mem x (List.mem_cons_of_mem t hx)) hdistinct fun x hx =>
        (hothers x.runId (hlater x hx)).trans (turn x (List.mem_cons_of_mem t hx))
    have hkept : R.progress t.runId = Q.progress t.runId := hothers' t.runId hnew
    refine ⟨R, deeds ++ deeds', hsteps.trans hsteps', ?_, ?_, ?_, ?_⟩
    · refine List.forall_mem_cons.2 ⟨?_, hover'⟩
      unfold Over
      rw [hkept]
      exact hover
    · intro id hid
      obtain ⟨hself, hrest⟩ := not_or.1 (mt List.mem_cons.2 hid)
      exact (hothers' id hrest).trans (hothers id hself)
    · rw [htrace', htrace, List.append_assoc]
    · have hfirst : F.engine.runFlow F.surroundings clock flow F.event F.mode .event
          ⟨P.store, named⟩ = ⟨F.answer R t, ⟨Q.store, named + 1⟩, deeds⟩ := by
        rw [answer_of_same hkept]
        exact hrun
      have hnamed : named + 1 + rest.length = named + (flow :: rest).length := by
        rw [List.length_cons]
        omega
      simp only [Engine.attempt, hfirst, hattempt, hnamed]
      rfl

/-- Fanning an event out with one flow after the other is one way in which its tasks may go. -/
theorem steps_fanOut {s : σ} {clock : Instant} {named : Nat} (begun : F.Begins s)
    (inTurn : F.tasks = F.engine.tasks clock (F.tasks.map Task.flow) named) :
    ∃ P, F.Steps (start s) P ∧ F.Ended P ∧
      F.engine.fanOut F.surroundings clock F.mode F.event ⟨s, named⟩ =
        F.outcome P (named + F.tasks.length) := by
  obtain ⟨found, hfound, hflows⟩ := begun.listed
  rw [hflows] at inTurn
  obtain ⟨P, deeds, hsteps, hover, -, htrace, hattempt⟩ :=
    steps_attempt (P := start s) clock (fun t ht => inTurn ▸ ht) (inTurn ▸ begun.distinct)
      fun t _ => rfl
  have hlength : F.tasks.length = (F.engine.settings.matcher.select found F.event).length := by
    rw [← hflows, List.length_map]
  refine ⟨P, hsteps, ended_of_over fun t ht => hover t (inTurn ▸ ht), ?_⟩
  have hstart : F.engine.attempt F.surroundings clock F.event F.mode
      (F.engine.settings.matcher.select found F.event) ⟨s, named⟩ = _ := hattempt
  have hdeeds : deeds = P.trace := htrace.symm
  simp only [Engine.fanOut, hfound, hstart, outcome, ids, done, answers, hlength, hdeeds, ← inTurn]

end FanOut

end Dunning
