import Dunning.Proofs.Walk.SingleEntry
import Mathlib.Data.List.Forall2

/-!
# The outbox of a walk

What a walk asks of the dispatcher mirrors what it logs: there is one request for each
enrollment step that it adds, in the same order, with the sequence of the node and the
contact and invoice of the event.
-/
namespace Dunning

/-- A request that a run makes for an enrollment step. -/
structure Requested (j : Journey) (runId : String) (step : Step) (request : DispatchRequest) :
    Prop where
  runId : request.runId = runId
  orgId : request.orgId = j.event.orgId
  nodeId : request.nodeId = step.nodeId
  contactId : request.contactId = j.event.contactId
  invoiceId : request.invoiceId = j.event.invoiceId
  sequence : ∃ node e, j.graph.node? step.nodeId = some node ∧ node.body = .enroll e ∧
    request.sequence = e.sequence

/-- Requests are made on behalf of the run, for the nodes of their steps. -/
theorem Requested.of_forall₂ {j : Journey} {runId : String} {steps : List Step}
    {requests : List DispatchRequest} (h : List.Forall₂ (Requested j runId) steps requests) :
    requests.map DispatchRequest.nodeId = steps.map Step.nodeId ∧
      ∀ request ∈ requests, request.runId = runId := by
  induction h with
  | nil => simp
  | cons h _ ih =>
    obtain ⟨hnodes, hruns⟩ := ih
    refine ⟨by rw [List.map_cons, List.map_cons, h.nodeId, hnodes], ?_⟩
    intro request hrequest
    rcases List.mem_cons.1 hrequest with rfl | hrequest
    · exact h.runId
    · exact hruns request hrequest

/-- The enrollment steps of a log. -/
def enqueuedSteps (log : List Step) : List Step := log.filter fun step => step.action == .enqueued

theorem enqueuedSteps_append (log more : List Step) :
    enqueuedSteps (log ++ more) = enqueuedSteps log ++ enqueuedSteps more := List.filter_append ..

theorem enqueuedSteps_skipped {step : Step} (h : step.action = .skipped) :
    enqueuedSteps [step] = [] := by simp [enqueuedSteps, h]

/-- A node was enrolled at as often as there are enrollment steps of it. -/
theorem entries_enqueued (id : String) (log : List Step) :
    entries .enqueued id log = ((enqueuedSteps log).map Step.nodeId).count id := by
  rw [entries, enqueuedSteps, List.count_eq_countP, List.countP_map, List.countP_filter]
  refine List.countP_congr fun step _ => ?_
  simp [Step.isOf, and_comm]

namespace Move

/-- A move that fits the graph makes a request exactly when it logs an enrollment. -/
theorem requested_of_fits {j : Journey} (s : WalkState) {m : Move} (fits : m.Fits j.graph) :
    List.Forall₂ (Requested j s.runId) (enqueuedSteps (m.step? j s).toList)
      (m.requests j s.runId) := by
  cases m with
  | visit id => exact .nil
  | note id node action detail =>
    have hother : action ≠ .enqueued := by
      rcases fits.2 with rfl | rfl | rfl <;> simp
    simp [step?, requests, enqueuedSteps, WalkState.nodeStep, WalkState.step, hother]
  | enroll id node e =>
    obtain ⟨found, hbody⟩ := fits
    cases hmode : j.mode with
    | live =>
      simp only [step?, requests, hmode]
      exact .cons ⟨rfl, rfl, rfl, rfl, rfl, node, e, found, hbody, rfl⟩ .nil
    | dryRun =>
      simp only [step?, requests, hmode]
      exact .nil
  | wait id node w =>
    simp only [step?, requests]
    cases w.until? s.now <;> exact .nil

theorem requested_of_forall_fits {j : Journey} (s : WalkState) {moves : List Move}
    (fits : ∀ m ∈ moves, m.Fits j.graph) :
    List.Forall₂ (Requested j s.runId) (enqueuedSteps (moves.filterMap (step? j s)))
      (moves.flatMap (requests j s.runId)) := by
  induction moves with
  | nil => exact .nil
  | cons m rest ih =>
    rw [filterMap_step?_cons, enqueuedSteps_append, List.flatMap_cons]
    exact List.rel_append (requested_of_fits s (fits m List.mem_cons_self))
      (ih fun other hother => fits other (List.mem_cons_of_mem m hother))

end Move

namespace WalkState

/-- A state that has extended a log and an outbox, in step with each other. -/
def Extends (j : Journey) (runId : String) (log : List Step) (outbox : List DispatchRequest)
    (s : WalkState) : Prop :=
  s.runId = runId ∧ ∃ added asked, s.log = log ++ added ∧ s.dispatches = outbox ++ asked ∧
    List.Forall₂ (Requested j runId) (enqueuedSteps added) asked

theorem Extends.self (j : Journey) (s : WalkState) : Extends j s.runId s.log s.dispatches s :=
  ⟨rfl, [], [], (List.append_nil _).symm, (List.append_nil _).symm, .nil⟩

theorem Extends.log_grows {j : Journey} {runId : String} {log : List Step}
    {outbox : List DispatchRequest} {s : WalkState} (h : Extends j runId log outbox s) :
    log <+: s.log := by
  obtain ⟨-, added, -, hlog, -⟩ := h
  exact ⟨added, hlog.symm⟩

theorem Extends.concat_skipped {j : Journey} {runId : String} {log : List Step}
    {outbox : List DispatchRequest} {s s' : WalkState} (h : Extends j runId log outbox s)
    {step : Step} (hstep : step.action = .skipped) (hlog : s'.log = s.log ++ [step])
    (hrun : s'.runId = s.runId) (hout : s'.dispatches = s.dispatches) :
    Extends j runId log outbox s' := by
  obtain ⟨hid, added, asked, hadded, hasked, hall⟩ := h
  refine ⟨hrun.trans hid, added ++ [step], asked, ?_, hout.trans hasked, ?_⟩
  · rw [hlog, hadded, List.append_assoc]
  · rwa [enqueuedSteps_append, enqueuedSteps_skipped hstep, List.append_nil]

theorem Extends.grown {j : Journey} {runId : String} {log : List Step}
    {outbox : List DispatchRequest} {s : WalkState} (h : Extends j runId log outbox s)
    {moves : List Move} (fits : ∀ m ∈ moves, m.Fits j.graph) :
    Extends j runId log outbox (s.grown j moves) := by
  obtain ⟨rfl, added, asked, hadded, hasked, hall⟩ := h
  refine ⟨rfl, added ++ moves.filterMap (Move.step? j s),
    asked ++ moves.flatMap (Move.requests j s.runId), ?_, ?_, ?_⟩
  · rw [← List.append_assoc, ← hadded]
    rfl
  · rw [← List.append_assoc, ← hasked]
    rfl
  · rw [enqueuedSteps_append]
    exact List.rel_append hall (Move.requested_of_forall_fits s fits)

/-- Walks extend the log and the outbox together. -/
theorem steady_extends (j : Journey) (runId : String) (log : List Step)
    (outbox : List DispatchRequest) : Steady j (Extends j runId log outbox) where
  walk agenda s hs := by
    have hfits := j.fits_of_mem_course agenda s.visited
    rcases walk_cases j agenda s with ⟨-, hsame⟩ | ⟨-, hall⟩ | ⟨-, made, m, rest, hsplit, hcut, -⟩
    · rw [hsame]
      exact hs
    · rw [hall]
      exact hs.grown hfits
    · rw [hcut]
      have hmade : ∀ m ∈ made, m.Fits j.graph := fun m hm =>
        hfits m (hsplit ▸ List.mem_append_left _ hm)
      exact (hs.grown hmade).concat_skipped rfl rfl rfl rfl
  remark step s hstep hs := by
    rcases record_cases s step with h | h | h <;> rw [h]
    · exact hs
    · exact hs.concat_skipped rfl rfl rfl rfl
    · exact hs.concat_skipped hstep.2 rfl rfl rfl
  retime _ _ _ _ _ hs := hs

/-- A dry run enrolls nobody. -/
theorem steady_dry {j : Journey} (dry : j.mode = .dryRun) :
    Steady j fun s => enqueuedSteps s.log = [] where
  walk agenda s hs := by
    have hfits := j.fits_of_mem_course agenda s.visited
    have hgrown : ∀ made, (∀ m ∈ made, m.Fits j.graph) → enqueuedSteps (s.grown j made).log = [] := by
      intro made hmade
      have hrequested := Move.requested_of_forall_fits s hmade
      have hnone : made.flatMap (Move.requests j s.runId) = [] := by
        refine List.flatMap_eq_nil_iff.2 fun m _ => ?_
        cases m <;> simp [Move.requests, dry]
      rw [hnone, List.forall₂_nil_right_iff] at hrequested
      simp only [grown, enqueuedSteps_append, hs, hrequested, List.append_nil]
    rcases walk_cases j agenda s with ⟨-, hsame⟩ | ⟨-, hall⟩ | ⟨-, made, m, rest, hsplit, hcut, -⟩
    · rwa [hsame]
    · rw [hall]
      exact hgrown _ hfits
    · rw [hcut]
      have hmade := hgrown made fun m hm => hfits m (hsplit ▸ List.mem_append_left _ hm)
      simp only [cut, enqueuedSteps_append, hmade, List.nil_append]
      exact enqueuedSteps_skipped rfl
  remark step s hstep hs := by
    rcases record_cases s step with h | h | h <;> rw [h]
    · exact hs
    · simp only [cut, enqueuedSteps_append, hs, List.nil_append]
      exact enqueuedSteps_skipped rfl
    · simp only [enqueuedSteps_append, hs, List.nil_append]
      exact enqueuedSteps_skipped hstep.2
  retime _ _ _ _ _ hs := hs

end WalkState

end Dunning
