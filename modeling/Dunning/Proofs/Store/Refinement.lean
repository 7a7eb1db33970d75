import Dunning.Proofs.Store.Lawful
import Dunning.Proofs.Store.Stock
import Dunning.Proofs.Time.Order

/-!
# The table store refines the memory store

Whatever is asked of two stores that were empty, they give the same answers, with the same
errors, as long as what is written can be read back. Only the runs of a flow may be told in
another order, by the text of the time at which they started, and not if that is the order
in which they were recorded.
-/
namespace Dunning

/-- What can be asked of a store. -/
inductive StoreCall where
  | saveFlow (flow : Flow)
  | getFlow (orgId flowId : String)
  | activeFlows (orgId : String)
  | recordRun (run : Run)
  | getRun (runId : String)
  | updateRun (run : Run) (priorSteps : Nat)
  | listRuns (flowId : String)

/-- What a store answers. -/
inductive StoreReply where
  | done
  | flow (flow : Option Flow)
  | flows (flows : List Flow)
  | run (run : Run)
  | runs (runs : List Run)
  | failed (problem : StoreProblem)

namespace StoreCall

variable {σ : Type} [Store σ]

/-- The reply to a write, and the store after it. A write that fails changes nothing. -/
def written (s : σ) : Except StoreProblem σ → StoreReply × σ
  | .ok next => (.done, next)
  | .error problem => (.failed problem, s)

/-- The reply to a query. -/
def told {α : Type} (reply : α → StoreReply) : Except StoreProblem α → StoreReply
  | .ok found => reply found
  | .error problem => .failed problem

/-- The reply to a call, and the store after it. -/
def perform (s : σ) : StoreCall → StoreReply × σ
  | saveFlow flow => (.done, Store.saveFlow flow s)
  | getFlow orgId flowId => (told .flow (Store.getFlow orgId flowId s), s)
  | activeFlows orgId => (told .flows (Store.activeFlows orgId s), s)
  | recordRun run => written s (Store.recordRun run s)
  | getRun runId => (told .run (Store.getRun runId s), s)
  | updateRun run priorSteps => written s (Store.updateRun run priorSteps s)
  | listRuns flowId => (told .runs (Store.listRuns flowId s), s)

/-- The replies to calls, one after the other. -/
def replies : List StoreCall → σ → List StoreReply
  | [], _ => []
  | call :: rest, s => (call.perform s).1 :: replies rest (call.perform s).2

end StoreCall

/-- Whether a flow is read back as it was written. -/
def Flow.Legible (flow : Flow) : Prop := Flow.codec.parse (Flow.codec.text flow) = .ok flow

/-- Whether an event is read back as it was written. -/
def Event.Legible (event : Event) : Prop := Event.codec.parse (Event.codec.text event) = .ok event

/-- A call that a store may get after others: what is written can be read back, a new run has an id
that is not taken, and an update continues the run that waits under its id, if one does. -/
def StoreCall.Admitted (s : MemoryStore) : StoreCall → Prop
  | saveFlow flow => flow.Legible
  | recordRun run => Store.getRun run.id s = .error (.notFound run.id) ∧ run.triggerEvent.Legible
  | updateRun run priorSteps => priorSteps ≤ TableStore.maxSteps ∧ ∀ stored,
      Store.getRun run.id s = .ok stored → stored.status = .waiting → run.Continues stored
  | _ => True

/-- Calls each of which is admitted when it comes. -/
def StoreCall.AllAdmitted : List StoreCall → MemoryStore → Prop
  | [], _ => True
  | call :: rest, s => call.Admitted s ∧ AllAdmitted rest (call.perform s).2

/-- Runs that started in the order in which they are told, in plain years. -/
def InOrder (runs : List Run) : Prop :=
  runs.Pairwise (fun a b => a.startedAt.le b.startedAt = true) ∧ ∀ run ∈ runs, run.startedAt.PlainYear

/-- Replies that are the same, or tell the same runs and differ in their order at most. -/
inductive StoreReply.Agrees : StoreReply → StoreReply → Prop where
  | same (reply : StoreReply) : Agrees reply reply
  | runs {told others : List Run} (same : others.Perm told) (ordered : InOrder told → others = told) :
      Agrees (.runs told) (.runs others)

namespace Keyed

variable {α β κ : Type} [DecidableEq κ]

/-- Items are put alike when their images have the same keys. -/
theorem map_put_of_keys (key : α → κ) (key' : β → κ) (f : α → β) (same : ∀ x, key' (f x) = key x)
    (item : α) (items : List α) :
    (put key item items).map f = put key' (f item) (items.map f) := by
  induction items with
  | nil => rfl
  | cons x rest ih =>
    rw [put, List.map_cons, put, same, same]
    split
    · rfl
    · rw [List.map_cons, ih]

theorem find?_map_of_keys (key : α → κ) (key' : β → κ) (f : α → β) (same : ∀ x, key' (f x) = key x)
    (k : κ) (items : List α) : find? key' k (items.map f) = (find? key k items).map f := by
  unfold find?
  rw [List.find?_map]
  congr 2
  funext x
  simp [same]

theorem mem_put {key : α → κ} {item x : α} {items : List α} (h : x ∈ put key item items) :
    x = item ∨ x ∈ items := by
  induction items with
  | nil => exact .inl (List.mem_singleton.1 h)
  | cons y rest ih =>
    rw [put] at h
    split at h
    · exact (List.mem_cons.1 h).imp_right (List.mem_cons_of_mem y)
    · rcases List.mem_cons.1 h with rfl | h
      · exact .inr List.mem_cons_self
      · exact (ih h).imp_right (List.mem_cons_of_mem y)

end Keyed

/-- A memory store and a table store with the same flows and runs in the same order. -/
structure Mirrors (m : MemoryStore) (t : TableStore) : Prop where
  flows : t.flowRows = m.flows.map FlowRow.ofFlow
  runs : t.runRows = m.runs.map RunRow.ofRun
  legible : ∀ flow ∈ m.flows, flow.Legible
  events : ∀ run ∈ m.runs, run.triggerEvent.Legible

theorem FlowRow.toFlow_ofFlow {flow : Flow} (h : flow.Legible) :
    (FlowRow.ofFlow flow).toFlow = .ok flow := by
  unfold toFlow
  rw [show (ofFlow flow).definition = Flow.codec.text flow from rfl, h]
  rfl

theorem RunRow.toRun_ofRun {run : Run} (h : run.triggerEvent.Legible) :
    (RunRow.ofRun run).toRun = .ok run := by
  unfold toRun
  rw [show (ofRun run).triggerEvent = Event.codec.text run.triggerEvent from rfl, h]
  rfl

/-- Reading back what is legible. -/
theorem mapM_map_of_ok {α β : Type} {f : α → β} {read : β → Except StoreProblem α} {items : List α}
    (h : ∀ x ∈ items, read (f x) = .ok x) : (items.map f).mapM read = .ok items :=
  mapM_eq_ok_iff.2 (List.forall₂_map_left_iff.2 (List.forall₂_same.2 h))

/-- A row of another run is not continued. -/
theorem TableStore.continueRow_of_ne {run : Run} {row : RunRow} (h : row.runId ≠ run.id)
    (priorSteps : Nat) : continueRow run priorSteps row = row := by
  have hrefuses : row.continues run priorSteps = false := by simp [RunRow.continues, h]
  rw [continueRow, hrefuses, if_neg Bool.false_ne_true]

/-- The row of a waiting run is continued into the row of its continuation. -/
theorem TableStore.continueRow_ofRun {run stored : Run} (continues : run.Continues stored)
    (waiting : stored.status = .waiting) :
    continueRow run stored.log.length (.ofRun stored) = .ofRun run := by
  have hadmits : (RunRow.ofRun stored).continues run stored.log.length = true := by
    simp [RunRow.continues, RunRow.ofRun, waiting, continues.id_eq]
  rw [continueRow, if_pos hadmits, RunRow.continued]
  rw [Run.Continues] at continues
  rw [continues]
  rfl

/-- Putting a continuation is continuing its row, since no other row has its id. -/
theorem TableStore.map_put {run stored : Run} (continues : run.Continues stored)
    (waiting : stored.status = .waiting) {runs : List Run} (distinct : (runs.map Run.id).Nodup)
    (found : Keyed.find? Run.id run.id runs = some stored) :
    (Keyed.put Run.id run runs).map RunRow.ofRun =
      (runs.map RunRow.ofRun).map (continueRow run stored.log.length) := by
  induction runs with
  | nil => cases found
  | cons first rest ih =>
    rw [List.map_cons, List.nodup_cons] at distinct
    rw [Keyed.find?, List.find?_cons] at found
    rw [Keyed.put, List.map_cons, List.map_cons]
    by_cases hid : first.id = run.id
    · have hrest : ∀ row ∈ rest.map RunRow.ofRun, continueRow run stored.log.length row = row := by
        intro row hrow
        obtain ⟨other, hother, rfl⟩ := List.mem_map.1 hrow
        refine continueRow_of_ne (fun hsame => distinct.1 ?_) _
        rw [hid]
        exact List.mem_map.2 ⟨other, hother, hsame⟩
      obtain rfl : first = stored := by simpa [hid] using found
      rw [if_pos hid, List.map_cons, continueRow_ofRun continues waiting, List.map_congr_left hrest,
        List.map_id']
    · have hother : (RunRow.ofRun first).runId ≠ run.id := hid
      have hskip : (first.id == run.id) = false := by simpa using hid
      rw [hskip] at found
      rw [if_neg hid, List.map_cons, continueRow_of_ne hother, ih distinct.2 found]

namespace Mirrors

variable {m : MemoryStore} {t : TableStore}

theorem empty : Mirrors (Store.empty : MemoryStore) (Store.empty : TableStore) :=
  ⟨rfl, rfl, by simp [Store.empty, MemoryStore.empty], by simp [Store.empty, MemoryStore.empty]⟩

theorem saveFlow (h : Mirrors m t) {flow : Flow} (legible : flow.Legible) :
    Mirrors (m.saveFlow flow) (t.saveFlow flow) := by
  refine ⟨?_, h.runs, fun other hother => ?_, h.events⟩
  · show Keyed.put FlowRow.flowId _ t.flowRows = (Keyed.put Flow.id flow m.flows).map _
    rw [h.flows]
    exact (Keyed.map_put_of_keys Flow.id FlowRow.flowId FlowRow.ofFlow (fun _ => rfl) flow _).symm
  · rcases Keyed.mem_put hother with rfl | hother
    · exact legible
    · exact h.legible other hother

theorem getFlow_eq (h : Mirrors m t) (orgId flowId : String) :
    t.getFlow orgId flowId = .ok (m.getFlow orgId flowId) := by
  have hkey : ((fun r : FlowRow => r.flowId == flowId && r.orgId == orgId && r.deletedAt.isNone) ∘
      FlowRow.ofFlow) = fun f => f.id == flowId && f.orgId == orgId && f.deletedAt.isNone := rfl
  unfold TableStore.getFlow MemoryStore.getFlow
  rw [h.flows, List.find?_map, hkey]
  cases hfound : m.flows.find? fun f => f.id == flowId && f.orgId == orgId && f.deletedAt.isNone with
  | none => rfl
  | some flow =>
    have hlegible := h.legible flow (List.mem_of_find?_eq_some hfound)
    simp only [Option.map_some, FlowRow.toFlow_ofFlow hlegible]
    rfl

theorem activeFlows_eq (h : Mirrors m t) (orgId : String) :
    t.activeFlows orgId = .ok (m.activeFlows orgId) := by
  have hlive : ((fun r : FlowRow => r.orgId == orgId && r.status == .active && r.deletedAt.isNone) ∘
      FlowRow.ofFlow) = fun f => f.orgId == orgId && f.isLive :=
    funext fun f => Bool.and_assoc ..
  unfold TableStore.activeFlows MemoryStore.activeFlows
  rw [h.flows, List.filter_map, hlive]
  exact mapM_map_of_ok fun f hf =>
    FlowRow.toFlow_ofFlow (h.legible f (List.mem_of_mem_filter hf))

theorem findRun_eq (h : Mirrors m t) (runId : String) :
    t.findRun runId = (m.findRun runId).map RunRow.ofRun := by
  unfold TableStore.findRun MemoryStore.findRun
  rw [h.runs]
  exact Keyed.find?_map_of_keys Run.id RunRow.runId RunRow.ofRun (fun _ => rfl) runId m.runs

theorem getRun_eq (h : Mirrors m t) (runId : String) : t.getRun runId = m.getRun runId := by
  unfold TableStore.getRun MemoryStore.getRun
  rw [h.findRun_eq]
  cases hfound : m.findRun runId with
  | none => rfl
  | some run => exact RunRow.toRun_ofRun (h.events run (List.mem_of_find?_eq_some hfound))

theorem nodup_runs (h : Mirrors m t) : (m.runs.map Run.id).Nodup := by
  have hdistinct := t.distinctRuns
  rwa [h.runs, List.map_map] at hdistinct

theorem recordRun (h : Mirrors m t) {run : Run} (fresh : m.getRun run.id = .error (.notFound run.id))
    (legible : run.triggerEvent.Legible) :
    ∃ t', t.recordRun run = .ok t' ∧ Mirrors (m.recordRun run) t' := by
  have hnone : t.findRun run.id = none := by
    rw [h.findRun_eq, MemoryStore.getRun_eq_notFound_iff.1 fresh]
    rfl
  unfold TableStore.recordRun
  split
  · rename_i row hrow
    cases hnone.symm.trans hrow
  · refine ⟨_, rfl, h.flows, ?_, h.legible, fun other hother => ?_⟩
    · show t.runRows ++ _ = (m.runs ++ [run]).map RunRow.ofRun
      rw [h.runs, List.map_append]
      rfl
    · rcases List.mem_append.1 hother with hother | hother
      · exact h.events other hother
      · exact List.mem_singleton.1 hother ▸ legible

/-- An update is let through by both stores or turned away by both for the same reason. -/
theorem updateRun (h : Mirrors m t) {run : Run} {priorSteps : Nat}
    (countable : priorSteps ≤ TableStore.maxSteps)
    (continues : ∀ stored, m.getRun run.id = .ok stored → stored.status = .waiting →
      run.Continues stored) :
    (∃ problem, m.updateRun run priorSteps = .error problem ∧
      t.updateRun run priorSteps = .error problem) ∨
    ∃ m' t', m.updateRun run priorSteps = .ok m' ∧ t.updateRun run priorSteps = .ok t' ∧
      Mirrors m' t' := by
  cases hread : m.getRun run.id with
  | error problem =>
    have hread' : t.getRun run.id = .error problem := (h.getRun_eq run.id).trans hread
    have hnone : m.findRun run.id = none := by
      cases hfound : m.findRun run.id with
      | none => rfl
      | some stored => cases hread.symm.trans (MemoryStore.getRun_eq_ok_iff.2 hfound)
    have hmissing : (t.runRows.any fun row => row.continues run priorSteps) = false := by
      rw [h.runs, List.any_map, List.any_eq_false]
      intro other hother hadmits
      have hid := List.find?_eq_none.1 hnone other hother
      simp_all [RunRow.continues, RunRow.ofRun]
    refine .inl ⟨problem, ?_, ?_⟩
    · rw [MemoryStore.updateRun, hread]
      rfl
    · rw [TableStore.updateRun, if_neg (Nat.not_lt.2 countable), hmissing, hread']
      rfl
  | ok stored =>
    have hread' : t.getRun run.id = .ok stored := (h.getRun_eq run.id).trans hread
    rw [MemoryStore.updateRun_of_getRun priorSteps hread,
      TableStore.updateRun_of_getRun hread' countable]
    by_cases hwaiting : stored.status = .waiting
    · by_cases hlength : stored.log.length = priorSteps
      · subst hlength
        have hcontinues := continues stored hread hwaiting
        have hfound := MemoryStore.getRun_eq_ok_iff.1 hread
        simp only [hwaiting, ne_eq, not_true_eq_false, if_false]
        refine .inr ⟨_, _, rfl, rfl, ⟨h.flows, ?_, h.legible, ?_⟩⟩
        · show t.runRows.map _ = (Keyed.put Run.id run m.runs).map RunRow.ofRun
          rw [h.runs, TableStore.map_put hcontinues hwaiting h.nodup_runs hfound]
        · intro other hother
          rcases Keyed.mem_put hother with rfl | hother
          · have hevent := h.events stored (List.mem_of_find?_eq_some hfound)
            rwa [← congrArg Run.triggerEvent hcontinues] at hevent
          · exact h.events other hother
      · exact .inl ⟨.conflict run.id, by simp [hwaiting, hlength], by simp [hwaiting, hlength]⟩
    · exact .inl ⟨.notWaiting run.id, by simp [hwaiting], by simp [hwaiting]⟩

/-- The table store tells the same runs, in the order of their keys. -/
theorem listRuns_agrees (h : Mirrors m t) (flowId : String) : ∃ others,
    t.listRuns flowId = .ok others ∧ others.Perm (m.listRuns flowId) ∧
      (InOrder (m.listRuns flowId) → others = m.listRuns flowId) := by
  let runs := m.listRuns flowId
  let others := runs.mergeSort fun a b => (RunRow.ofRun a).sortKey ≤ (RunRow.ofRun b).sortKey
  have hperm : others.Perm runs := List.mergeSort_perm runs _
  have hrows : t.runRows.filter (fun r => r.flowId == flowId) = runs.map RunRow.ofRun := by
    rw [h.runs, List.filter_map]
    rfl
  have hsorted : others.map RunRow.ofRun =
      (runs.map RunRow.ofRun).mergeSort fun a b => a.sortKey ≤ b.sortKey :=
    List.map_mergeSort fun _ _ _ _ => rfl
  refine ⟨others, ?_, hperm, fun inOrder => List.mergeSort_of_pairwise ?_⟩
  · unfold TableStore.listRuns
    rw [hrows, ← hsorted]
    exact mapM_map_of_ok fun run hrun =>
      RunRow.toRun_ofRun (h.events run (List.mem_of_mem_filter (hperm.mem_iff.1 hrun)))
  · refine (List.Pairwise.and_mem.1 inOrder.1).imp fun ⟨ha, hb, hle⟩ => ?_
    exact decide_eq_true (Timestamp.render_le (inOrder.2 _ ha) (inOrder.2 _ hb) hle)

/-- One call is answered alike, and the stores stay alike. -/
theorem perform (h : Mirrors m t) {call : StoreCall} (admitted : call.Admitted m) :
    (call.perform m).1.Agrees (call.perform t).1 ∧ Mirrors (call.perform m).2 (call.perform t).2 := by
  cases call with
  | saveFlow flow => exact ⟨.same _, h.saveFlow admitted⟩
  | getFlow orgId flowId =>
    have hread : (Store.getFlow orgId flowId t) = Store.getFlow orgId flowId m :=
      h.getFlow_eq orgId flowId
    simp only [StoreCall.perform, hread]
    exact ⟨.same _, h⟩
  | activeFlows orgId =>
    have hread : (Store.activeFlows orgId t) = Store.activeFlows orgId m := h.activeFlows_eq orgId
    simp only [StoreCall.perform, hread]
    exact ⟨.same _, h⟩
  | recordRun run =>
    obtain ⟨t', ht', hmirrors⟩ := h.recordRun admitted.1 admitted.2
    have hwrite : Store.recordRun run t = .ok t' := ht'
    simp only [StoreCall.perform, hwrite]
    exact ⟨.same _, hmirrors⟩
  | getRun runId =>
    have hread : (Store.getRun runId t) = Store.getRun runId m := h.getRun_eq runId
    simp only [StoreCall.perform, hread]
    exact ⟨.same _, h⟩
  | updateRun run priorSteps =>
    rcases h.updateRun admitted.1 admitted.2 with ⟨problem, hm, ht⟩ | ⟨m', t', hm, ht, hmirrors⟩
    · have hm : Store.updateRun run priorSteps m = .error problem := hm
      have ht : Store.updateRun run priorSteps t = .error problem := ht
      simp only [StoreCall.perform, hm, ht]
      exact ⟨.same _, h⟩
    · have hm : Store.updateRun run priorSteps m = .ok m' := hm
      have ht : Store.updateRun run priorSteps t = .ok t' := ht
      simp only [StoreCall.perform, hm, ht]
      exact ⟨.same _, hmirrors⟩
  | listRuns flowId =>
    obtain ⟨others, hread, hperm, hordered⟩ := h.listRuns_agrees flowId
    have hread : Store.listRuns flowId t = .ok others := hread
    simp only [StoreCall.perform, hread]
    exact ⟨.runs hperm hordered, h⟩

/-- Stores that are alike answer calls alike. -/
theorem replies_agree {calls : List StoreCall} (admitted : StoreCall.AllAdmitted calls m)
    (h : Mirrors m t) :
    List.Forall₂ StoreReply.Agrees (StoreCall.replies calls m) (StoreCall.replies calls t) := by
  induction calls generalizing m t with
  | nil => exact .nil
  | cons call rest ih =>
    obtain ⟨hagrees, hmirrors⟩ := h.perform admitted.1
    exact .cons hagrees (ih admitted.2 hmirrors)

end Mirrors

/-- Whatever is asked of two empty stores, the table store answers as the memory store does. -/
theorem tableStore_refines_memoryStore {calls : List StoreCall}
    (admitted : StoreCall.AllAdmitted calls Store.empty) :
    List.Forall₂ StoreReply.Agrees (StoreCall.replies calls (Store.empty : MemoryStore))
      (StoreCall.replies calls (Store.empty : TableStore)) :=
  Mirrors.empty.replies_agree admitted

namespace ledger

/-- A flow with nothing in it. -/
def flow : Flow := ⟨"ledger", "acme", "Ledger", .active, [], [], none⟩

/-- The flow in other hands, paused and marked as deleted. -/
def moved : Flow := { flow with orgId := "other", status := .paused, deletedAt := some .epoch }

def begun : Run :=
  ⟨"run1", "ledger", "acme", .manual, .ofTrigger "acme" .paymentFailed, .waiting, .epoch, none, [],
    [⟨"w", .epoch⟩]⟩

def ended : Run := { begun with status := .completed, completedAt := some .epoch, pending := [] }

/-- The flow is replaced while its run waits, and the run is ended twice. -/
def calls : List StoreCall :=
  [.saveFlow flow, .activeFlows "acme", .recordRun begun, .saveFlow moved,
    .getFlow "other" "ledger", .updateRun ended 0, .updateRun ended 0, .listRuns "ledger"]

end ledger

theorem tableStore_refines_memoryStore_ledger :
    StoreCall.AllAdmitted ledger.calls Store.empty ∧
    List.Forall₂ StoreReply.Agrees (StoreCall.replies ledger.calls (Store.empty : MemoryStore))
      (StoreCall.replies ledger.calls (Store.empty : TableStore)) ∧
    StoreCall.replies ledger.calls (Store.empty : MemoryStore) =
      [.done, .flows [ledger.flow], .done, .done, .flow none, .done, .failed (.notWaiting "run1"),
        .runs [ledger.ended]] := by
  have hflow : ledger.flow.Legible := Flow.codec.parse_text_of_numberless rfl
  have hmoved : ledger.moved.Legible := Flow.codec.parse_text_of_numberless rfl
  have hevent : ledger.begun.triggerEvent.Legible := Event.codec.parse_text_of_numberless rfl
  have hadmitted : StoreCall.AllAdmitted ledger.calls Store.empty := by
    refine ⟨hflow, trivial, ⟨rfl, hevent⟩, hmoved, trivial, ⟨by decide, ?_⟩, ⟨by decide, ?_⟩, trivial,
      trivial⟩
    · rintro _ ⟨⟩ -
      rfl
    · rintro _ ⟨⟩ ⟨⟩
  exact ⟨hadmitted, tableStore_refines_memoryStore hadmitted, rfl⟩

end Dunning
