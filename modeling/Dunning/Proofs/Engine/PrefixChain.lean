import Dunning.Proofs.Engine.Draft
import Dunning.Proofs.Engine.World
import Mathlib.Data.List.Count

/-!
# Prefix chains

The logs under which a run was written form a chain in which each is a first part of
the next. A continuation is written only when the stored log is as long as the one that
it read, and as parts of one chain the two are then the same. So it extends the log as
it stands, and enters only nodes of which that log does not tell. The requests that are
still to be handed off, and those that were, never outnumber the enrollment steps of
the log written last.
-/
namespace Dunning

open WalkState

/-- What the dispatcher must not see twice. -/
def DispatchRequest.key (request : DispatchRequest) : String × String :=
  (request.runId, request.nodeId)

theorem WalkState.EnteredOnce.of_longer {log longer : List Step} (h : EnteredOnce longer)
    (hlog : log <+: longer) :
    EnteredOnce log where
  once a id ha := Nat.le_trans (hlog.sublist.countP_le) (h.once a id ha)
  kinded step hstep ha := h.kinded step (hlog.subset hstep) ha

/-- By run and node, the requests of a draft are the enrollments that it adds to the log of its
run. -/
theorem Draft.Extends.count_key {d : Draft} {log : List Step} (h : d.Extends log)
    (runId nodeId : String) :
    (d.requests.map DispatchRequest.key).count (runId, nodeId) + entries .enqueued nodeId log =
      if runId = d.run.id then entries .enqueued nodeId d.run.log
      else entries .enqueued nodeId log := by
  have hkeys : d.requests.map DispatchRequest.key =
      (d.requests.map DispatchRequest.nodeId).map (Prod.mk d.run.id) := by
    rw [List.map_map]
    refine List.map_congr_left fun request hrequest => ?_
    rw [DispatchRequest.key, h.runId request hrequest]
    rfl
  rw [hkeys]
  by_cases hid : runId = d.run.id
  · subst hid
    rw [if_pos rfl, h.requests nodeId,
      List.count_map_of_injective _ _ fun _ _ h => (Prod.mk.inj h).2, Nat.add_comm]
  · rw [if_neg hid, List.count_eq_zero.2, Nat.zero_add]
    intro hmem
    obtain ⟨node, -, hnode⟩ := List.mem_map.1 hmem
    exact hid (Prod.mk.inj hnode).1.symm

/-- Asking for an enrollment serves a run that logs the enrollment. Other acts serve any run. -/
def Act.Serves (act : Act) (run : Run) : Prop :=
  ∀ request, act.request? = some request →
    request.runId = run.id ∧ 1 ≤ entries .enqueued request.nodeId run.log

/-- How often a call is still going to call the dispatcher for a node of a run. -/
def Call.owed (key : String × String) (call : Call) : Nat :=
  match call.stage with
  | .handingOff _ d => (d.requests.map DispatchRequest.key).count key
  | _ => 0

theorem sum_map_set {α : Type} (f : α → Nat) {items : List α} {k : Nat} {old : α}
    (h : items[k]? = some old) (new : α) :
    ((items.set k new).map f).sum + f old = (items.map f).sum + f new := by
  induction items generalizing k with
  | nil => simp at h
  | cons x rest ih =>
    cases k with
    | zero =>
      obtain rfl : x = old := by simpa using h
      simp only [List.set_cons_zero, List.map_cons, List.sum_cons]
      omega
    | succ k =>
      have := ih (by simpa using h)
      simp only [List.set_cons_succ, List.map_cons, List.sum_cons]
      omega

namespace World

variable {σ : Type} [Store σ]

/-- The version of a run that a call has read is a first part of the one that is stored. -/
def Holds (W : World σ) (c : Continuation) : Prop :=
  ∃ run, Store.getRun c.run.id W.store = .ok run ∧ run.Continues c.run ∧ c.run.log <+: run.log

/-- What holds of a call at each of its stages. -/
def StageSound (W : World σ) (caller : Nat) : Stage → Prop
  | .recording d => d.Extends []
  | .loading c _ => W.Holds c
  | .updating c d => W.Holds c ∧ d.run.Continues c.run ∧ d.Extends c.run.log
  | .handingOff _ d => .wrote caller d.run ∈ W.trace ∧ ∃ log, d.Extends log
  | .finished => True

structure Sound (W : World σ) : Prop where
  chain : ∀ id, (W.versions id).Pairwise fun earlier later => earlier.log <+: later.log
  grows : ∀ id, ∀ run ∈ W.versions id, run.log <+: W.logOf id
  once : ∀ id, EnteredOnce (W.logOf id)
  told : ∀ id run, Store.getRun id W.store = .ok run →
    run.id = id ∧ (W.versions id).getLast?.map Run.log = some run.log
  untold : ∀ id, Store.getRun id W.store = .error (.notFound id) → W.versions id = []
  stages : ∀ k call, W.calls[k]? = some call → W.StageSound k call.stage
  budget : ∀ runId nodeId, (W.requests.map DispatchRequest.key).count (runId, nodeId) +
    (W.calls.map (Call.owed (runId, nodeId))).sum ≤ entries .enqueued nodeId (W.logOf runId)
  order : ∀ before k act, before ++ [.acted k act] <+: W.trace →
    ∃ run, .wrote k run ∈ before ∧ act.Serves run

/-- The log of a stored run is the one that was written last. -/
theorem Sound.log_eq {W : World σ} (h : W.Sound) {id : String} {run : Run}
    (told : Store.getRun id W.store = .ok run) : run.log = W.logOf id := by
  rw [logOf, (h.told id run told).2, Option.getD_some]

/-- Between two worlds, stored runs have only been continued, and the trace has only grown. -/
structure Later (W W' : World σ) : Prop where
  store : ∀ id run, Store.getRun id W.store = .ok run →
    ∃ run', Store.getRun id W'.store = .ok run' ∧ run'.Continues run ∧ run.log <+: run'.log
  trace : W.trace <+: W'.trace

/-- It is enough that the same runs are told. -/
theorem Later.of_same {W W' : World σ} (same : ∀ id, Store.getRun id W'.store = Store.getRun id W.store)
    (trace : W.trace <+: W'.trace) : Later W W' :=
  ⟨fun id run h => ⟨run, (same id).trans h, .refl run, List.prefix_rfl⟩, trace⟩

theorem Holds.later {W W' : World σ} {c : Continuation} (h : W.Holds c) (later : Later W W') :
    W'.Holds c := by
  obtain ⟨run, hrun, hcontinues, hlog⟩ := h
  obtain ⟨run', hrun', hcontinues', hlog'⟩ := later.store _ run hrun
  exact ⟨run', hrun', hcontinues'.trans hcontinues, hlog.trans hlog'⟩

/-- What holds of a stage goes on to hold whatever the others do. -/
theorem StageSound.later {W W' : World σ} {k : Nat} {stage : Stage} (h : W.StageSound k stage)
    (later : Later W W') : W'.StageSound k stage := by
  cases stage with
  | recording d => exact h
  | loading c now => exact Holds.later h later
  | updating c d => exact ⟨h.1.later later, h.2⟩
  | handingOff notice d => exact ⟨later.trace.subset h.1, h.2⟩
  | finished => trivial

/-- What is known of the other calls stays known when one of them comes to another stage. -/
theorem Sound.stages_set {W W' : World σ} (h : W.Sound) (later : Later W W') {k : Nat} {new : Call}
    (calls : W'.calls = W.calls.set k new) (sound : W'.StageSound k new.stage) :
    ∀ i call, W'.calls[i]? = some call → W'.StageSound i call.stage := by
  rw [calls]
  exact forall_calls_set _ (fun i call hcall => (h.stages i call hcall).later later) sound

/-- A new call that owes nothing leaves everything as it is. -/
theorem Sound.begin {W : World σ} (h : W.Sound) (call : Call)
    (sound : ∀ k, W.StageSound k call.stage) (owes : ∀ key, call.owed key = 0) :
    Sound { W with calls := W.calls ++ [call] } where
  chain := h.chain
  grows := h.grows
  once := h.once
  told := h.told
  untold := h.untold
  stages :=
    have hlater : Later W { W with calls := W.calls ++ [call] } :=
    .of_same (fun _ => rfl) List.prefix_rfl
    forall_calls_concat _ (fun i other hother => (h.stages i other hother).later hlater)
      fun i => (sound i).later hlater
  budget runId nodeId := by
    have hbudget := h.budget runId nodeId
    rw [List.map_append, List.sum_append, List.map_singleton, List.sum_singleton, owes,
      Nat.add_zero]
    exact hbudget
  order := h.order

/-- A call that owes nothing may come to another such stage. -/
theorem Sound.advance {W : World σ} (h : W.Sound) {k : Nat} {call : Call}
    (turn : W.calls[k]? = some call) {stage : Stage} (sound : W.StageSound k stage)
    (owes : ∀ key, ({ call with stage := stage } : Call).owed key = 0) :
    (W.advance k call stage).Sound where
  chain := h.chain
  grows := h.grows
  once := h.once
  told := h.told
  untold := h.untold
  stages :=
    have hlater : Later W (W.advance k call stage) := .of_same (fun _ => rfl) List.prefix_rfl
    h.stages_set hlater rfl (sound.later hlater)
  budget runId nodeId := by
    have hsum := sum_map_set (Call.owed (runId, nodeId)) turn { call with stage := stage }
    rw [owes] at hsum
    have hbudget := h.budget runId nodeId
    have hsum' : ((W.advance k call stage).calls.map (Call.owed (runId, nodeId))).sum ≤
        (W.calls.map (Call.owed (runId, nodeId))).sum := Nat.le.intro hsum
    exact Nat.le_trans (Nat.add_le_add_left hsum' _) hbudget
  order := h.order

/-- A call that writes a draft owes the requests of the enrollment steps that the log has gained. -/
theorem Sound.budget_written {W : World σ} (h : W.Sound) {k : Nat} {call : Call} (notice : Notice)
    {d : Draft} (store : σ) (turn : W.calls[k]? = some call) (owes : ∀ key, call.owed key = 0)
    (hextends : d.Extends (W.logOf d.run.id)) (runId nodeId : String) :
    ((W.written k call notice d store).requests.map DispatchRequest.key).count (runId, nodeId) +
      ((W.written k call notice d store).calls.map (Call.owed (runId, nodeId))).sum ≤
        entries .enqueued nodeId ((W.written k call notice d store).logOf runId) := by
  have hsum := sum_map_set (Call.owed (runId, nodeId)) turn
    { call with stage := .handingOff notice d }
  rw [owes, Nat.add_zero] at hsum
  have hbudget := h.budget runId nodeId
  have hkey := hextends.count_key runId nodeId
  have howed : Call.owed (runId, nodeId) { call with stage := .handingOff notice d } =
      (d.requests.map DispatchRequest.key).count (runId, nodeId) := rfl
  have hcalls : (W.written k call notice d store).calls =
      W.calls.set k { call with stage := .handingOff notice d } := rfl
  rw [requests_written, logOf_written, hcalls, hsum, howed]
  by_cases hid : runId = d.run.id
  · subst hid
    rw [if_pos rfl] at hkey ⊢
    omega
  · rw [if_neg hid] at hkey
    rw [if_neg (Ne.symm hid)]
    have hnone : (d.requests.map DispatchRequest.key).count (runId, nodeId) = 0 := by
      refine List.count_eq_zero.2 fun hmem => hid ?_
      obtain ⟨request, hrequest, hkeyed⟩ := List.mem_map.1 hmem
      rw [← hextends.runId request hrequest]
      exact (Prod.mk.inj hkeyed).1.symm
    omega

/-- What a call writes when it is its turn: a draft that extends the log written last. -/
theorem Sound.written {W : World σ} (h : W.Sound) {k : Nat} {call : Call} (notice : Notice)
    {d : Draft} {store : σ} (turn : W.calls[k]? = some call) (owes : ∀ key, call.owed key = 0)
    (hextends : d.Extends (W.logOf d.run.id))
    (told : ∀ run, Store.getRun d.run.id store = .ok run → run.id = d.run.id ∧ run.log = d.run.log)
    (found : Store.getRun d.run.id store ≠ .error (.notFound d.run.id))
    (others : ∀ id ≠ d.run.id, Store.getRun id store = Store.getRun id W.store)
    (later : Later W (W.written k call notice d store)) :
    (W.written k call notice d store).Sound where
  chain id := by
    rw [versions_written]
    split
    · rename_i hid
      subst hid
      refine List.pairwise_append.2 ⟨h.chain _, List.pairwise_singleton _ _, ?_⟩
      intro run hrun last hlast
      rw [List.mem_singleton.1 hlast]
      exact (h.grows _ run hrun).trans hextends.grows
    · rw [List.append_nil]
      exact h.chain id
  grows id run hrun := by
    rw [versions_written] at hrun
    rw [logOf_written]
    split at hrun
    · rename_i hid
      subst hid
      rw [if_pos rfl]
      rcases List.mem_append.1 hrun with hrun | hrun
      · exact (h.grows _ run hrun).trans hextends.grows
      · exact List.mem_singleton.1 hrun ▸ List.prefix_rfl
    · rename_i hid
      rw [if_neg hid]
      rw [List.append_nil] at hrun
      exact h.grows id run hrun
  once id := by
    rw [logOf_written]
    split
    · exact hextends.once
    · exact h.once id
  told id run hrun := by
    rw [versions_written]
    by_cases hid : d.run.id = id
    · subst hid
      obtain ⟨hsame, hlog⟩ := told run hrun
      rw [if_pos rfl, List.getLast?_concat, Option.map_some, hlog]
      exact ⟨hsame, rfl⟩
    · rw [if_neg hid, List.append_nil]
      exact h.told id run ((others id (Ne.symm hid)).symm.trans hrun)
  untold id hnone := by
    have hid : d.run.id ≠ id := by
      rintro rfl
      exact found hnone
    rw [versions_written, if_neg hid, List.append_nil]
    exact h.untold id ((others id (Ne.symm hid)).symm.trans hnone)
  stages :=
    h.stages_set later rfl ⟨List.mem_append_right _ (List.mem_singleton_self _), _, hextends⟩
  budget := h.budget_written notice store turn owes hextends
  order before i act hprefix := by
    rcases List.prefix_concat_iff.1 hprefix with hlast | hprefix
    · have := (List.append_inj' hlast rfl).2
      cases (List.singleton_injective this)
    · exact h.order before i act hprefix

/-- What a draft asks for serves its run. -/
theorem serves_of_extends {d : Draft} {log : List Step} (h : d.Extends log) {act : Act}
    (hact : ∀ request, act.request? = some request → request ∈ d.requests) : act.Serves d.run := by
  intro request hrequest
  have hmem := hact request hrequest
  refine ⟨h.runId request hmem, ?_⟩
  have hcount := h.requests request.nodeId
  have hpos := List.count_pos_iff.2 (List.mem_map_of_mem (f := DispatchRequest.nodeId) hmem)
  omega

/-- What a call asks of the dispatcher when it hands off is what it has owed. -/
theorem Sound.budget_handedOff {W : World σ} (h : W.Sound) {k : Nat} {call : Call} {notice : Notice}
    {d : Draft} (turn : W.calls[k]? = some call) (stage : call.stage = .handingOff notice d)
    (runId nodeId : String) :
    ((W.handedOff k call notice d).requests.map DispatchRequest.key).count (runId, nodeId) +
      ((W.handedOff k call notice d).calls.map (Call.owed (runId, nodeId))).sum ≤
        entries .enqueued nodeId ((W.handedOff k call notice d).logOf runId) := by
  have hasked := call.engine.handOff_requests call.surroundings notice d
  have hlog : (W.handedOff k call notice d).logOf runId = W.logOf runId := by
    rw [logOf, logOf, versions_handedOff]
  have hsum := sum_map_set (Call.owed (runId, nodeId)) turn { call with stage := .finished }
  have howed : call.owed (runId, nodeId) =
      (d.requests.map DispatchRequest.key).count (runId, nodeId) := by rw [Call.owed, stage]
  have hover : Call.owed (runId, nodeId) { call with stage := .finished } = 0 := rfl
  have hcalls : (W.handedOff k call notice d).calls =
      W.calls.set k { call with stage := .finished } := rfl
  have hpaid := (hasked.map DispatchRequest.key).sublist.count_le (runId, nodeId)
  have hbudget := h.budget runId nodeId
  rw [howed, hover, Nat.add_zero] at hsum
  rw [requests_handedOff, hlog, hcalls, List.map_append, List.count_append]
  omega

/-- An act of a hand-off comes behind the whole trace so far, where the run is written. -/
theorem Sound.order_handedOff {W : World σ} (h : W.Sound) {k : Nat} {call : Call} {notice : Notice}
    {d : Draft} (turn : W.calls[k]? = some call) (stage : call.stage = .handingOff notice d)
    (before : List Happening) (i : Nat) (act : Act)
    (past : before ++ [.acted i act] <+: (W.handedOff k call notice d).trace) :
    ∃ run, .wrote i run ∈ before ∧ act.Serves run := by
  have hasked := call.engine.handOff_requests call.surroundings notice d
  have hown := h.stages k call turn
  rw [stage] at hown
  obtain ⟨hwrote, log, hextends⟩ := hown
  rcases List.prefix_or_prefix_of_prefix past (List.prefix_append _ _) with hold | hnew
  · exact h.order before i act hold
  · rcases List.prefix_concat_iff.1 hnew with htrace | hnew
    · exact h.order before i act (htrace ▸ List.prefix_rfl)
    · obtain ⟨since, rfl⟩ := hnew
      have hacts := (List.prefix_append_right_inj W.trace).1
        ((List.append_assoc W.trace since _) ▸ past)
      have hmem := hacts.subset (List.mem_append_right since (List.mem_singleton_self _))
      obtain ⟨deed, hdeed, hacted⟩ := List.mem_map.1 hmem
      obtain ⟨rfl, rfl⟩ := Happening.acted.inj hacted
      refine ⟨d.run, List.mem_append_left _ hwrote, serves_of_extends hextends ?_⟩
      intro request hrequest
      exact hasked.subset (List.mem_filterMap.2 ⟨deed.act, List.mem_map_of_mem hdeed, hrequest⟩)

/-- A call that owes a draft to the others calls them. -/
theorem Sound.handedOff {W : World σ} (h : W.Sound) {k : Nat} {call : Call} {notice : Notice}
    {d : Draft} (turn : W.calls[k]? = some call) (stage : call.stage = .handingOff notice d) :
    (W.handedOff k call notice d).Sound := by
  have hlater : Later W (W.handedOff k call notice d) :=
    .of_same (fun _ => rfl) (List.prefix_append _ _)
  have hlog : ∀ id, (W.handedOff k call notice d).logOf id = W.logOf id := fun id => by
    rw [logOf, logOf, versions_handedOff]
  refine ⟨?_, ?_, ?_, ?_, ?_, h.stages_set hlater rfl trivial, ?_, ?_⟩
  · intro id
    rw [versions_handedOff]
    exact h.chain id
  · intro id run hrun
    rw [versions_handedOff] at hrun
    rw [hlog]
    exact h.grows id run hrun
  · intro id
    rw [hlog]
    exact h.once id
  · intro id run hrun
    rw [versions_handedOff]
    exact h.told id run hrun
  · intro id hnone
    rw [versions_handedOff]
    exact h.untold id hnone
  · exact h.budget_handedOff turn stage
  · exact h.order_handedOff turn stage

variable [LawfulStore σ]

/-- A run is recorded under an id of which nothing has been written. -/
theorem Sound.recorded {W : World σ} (h : W.Sound) {k : Nat} {call : Call} {d : Draft} {store : σ}
    (turn : W.calls[k]? = some call) (stage : call.stage = .recording d)
    (fresh : Store.getRun d.run.id W.store = .error (.notFound d.run.id))
    (done : Store.recordRun d.run W.store = .ok store) :
    (W.written k call (recordedNotice d) d store).Sound := by
  obtain ⟨store', hstore', hfound, htold, hothers, -⟩ :=
    LawfulStore.recordRun_fresh d.run W.store fresh
  obtain rfl : store = store' := Except.ok.inj (done.symm.trans hstore')
  have hextends := h.stages k call turn
  rw [stage] at hextends
  have hempty : W.logOf d.run.id = [] := by rw [logOf, h.untold _ fresh]; rfl
  refine h.written _ turn (fun key => by rw [Call.owed, stage]) (hempty ▸ hextends) ?_ hfound
    hothers ?_
  · intro run hrun
    obtain ⟨event, -, rfl⟩ := (htold run).1 hrun
    exact ⟨rfl, rfl⟩
  · refine ⟨fun id run hrun => ?_, List.prefix_append _ _⟩
    have hid : id ≠ d.run.id := by
      rintro rfl
      cases fresh.symm.trans hrun
    exact ⟨run, (hothers id hid).trans hrun, .refl run, List.prefix_rfl⟩

/-- A continuation is written over the log that it read: the stored log has the same length, and
of two parts of one chain the shorter one is a first part of the other. -/
theorem Sound.updateRun_ok {W : World σ} (h : W.Sound) {k : Nat} {call : Call} {c : Continuation}
    {d : Draft} {store : σ} (turn : W.calls[k]? = some call) (stage : call.stage = .updating c d)
    (done : Store.updateRun d.run c.run.log.length W.store = .ok store) :
    ∃ run, Store.getRun d.run.id W.store = .ok run ∧ run.status = .waiting ∧ c.run.log = run.log ∧
      d.run.Continues run ∧ Store.getRun d.run.id store = .ok d.run ∧
      ∀ id ≠ d.run.id, Store.getRun id store = Store.getRun id W.store := by
  have hown := h.stages k call turn
  rw [stage] at hown
  obtain ⟨⟨run, hrun, hcontinues, hlog⟩, hdraft, -⟩ := hown
  have hread : Store.getRun d.run.id W.store = .ok run := by rw [hdraft.id_eq]; exact hrun
  obtain ⟨hwaiting, hlength, hfound, hothers, -⟩ := LawfulStore.updateRun_ok d.run run
    c.run.log.length W.store store hread (hdraft.trans hcontinues.symm) done
  exact ⟨run, hread, hwaiting, hlog.eq_of_length hlength.symm, hdraft.trans hcontinues.symm, hfound,
    hothers⟩

theorem Sound.updated {W : World σ} (h : W.Sound) {k : Nat} {call : Call} {c : Continuation}
    {d : Draft} {store : σ} (turn : W.calls[k]? = some call)
    (stage : call.stage = .updating c d)
    (done : Store.updateRun d.run c.run.log.length W.store = .ok store) :
    (W.written k call (resumedNotice d) d store).Sound := by
  obtain ⟨run, hread, -, hsame, hcontinues, hfound, hothers⟩ := h.updateRun_ok turn stage done
  have hown := h.stages k call turn
  rw [stage] at hown
  obtain ⟨-, -, hextends⟩ := hown
  have hlast : W.logOf d.run.id = c.run.log := by rw [hsame, h.log_eq hread]
  refine h.written _ turn (fun key => by rw [Call.owed, stage]) (hlast.symm ▸ hextends) ?_ ?_
    hothers ?_
  · intro told htold
    obtain rfl : d.run = told := Except.ok.inj (hfound.symm.trans htold)
    exact ⟨rfl, rfl⟩
  · rw [hfound]
    exact fun h => by cases h
  · refine ⟨fun id other hother => ?_, List.prefix_append _ _⟩
    by_cases hid : id = d.run.id
    · subst hid
      obtain rfl : run = other := Except.ok.inj (hread.symm.trans hother)
      exact ⟨d.run, hfound, hcontinues, hsame ▸ hextends.grows⟩
    · exact ⟨other, (hothers id hid).trans hother, .refl other, List.prefix_rfl⟩

theorem Sound.next {W W' : World σ} (h : W.Sound) (hnext : Next W W') : W'.Sound := by
  cases hnext with
  | save flow =>
    have hsame : ∀ id, Store.getRun id (Store.saveFlow flow W.store) = Store.getRun id W.store :=
      fun id => LawfulStore.getRun_saveFlow flow id W.store
    have hlater : Later W { W with store := Store.saveFlow flow W.store } :=
      .of_same hsame List.prefix_rfl
    exact ⟨h.chain, h.grows, h.once, fun id run hrun => h.told id run ((hsame id).symm.trans hrun),
      fun id hnone => h.untold id ((hsame id).symm.trans hnone),
      fun k call hcall => (h.stages k call hcall).later hlater, h.budget, h.order⟩
  | execute e w flow event mode source runId clock =>
    exact h.begin _ (fun _ => e.draft_extends flow event mode source runId clock) fun _ => rfl
  | record k call d store turn stage fresh done => exact h.recorded turn stage fresh done
  | read e w runId now run c found due =>
    obtain ⟨-, -, rfl⟩ := Run.continuation_eq_some_iff.1 due
    have hid := (h.told runId run found).1
    exact h.begin _ (fun _ => ⟨run, hid.symm ▸ found, .refl run, List.prefix_rfl⟩) fun _ => rfl
  | load k call c now clock flow turn stage found =>
    have hown := h.stages k call turn
    rw [stage] at hown
    obtain ⟨run, hrun, hcontinues, hlog⟩ := hown
    have honce : EnteredOnce c.run.log :=
      (h.once _).of_longer (h.log_eq hrun ▸ hlog)
    exact h.advance turn
      ⟨⟨run, hrun, hcontinues, hlog⟩, rfl, c.draft_extends honce call.engine flow now clock⟩
      fun _ => rfl
  | update k call c d store turn stage done => exact h.updated turn stage done
  | handOff k call notice d turn stage => exact h.handedOff turn stage
  | abandon k call turn => exact h.advance turn trivial fun _ => rfl

theorem sound_start : (start : World σ).Sound where
  chain _ := .nil
  grows _ _ h := nomatch h
  once _ := .nil
  told id run h := by cases (LawfulStore.getRun_empty id).symm.trans h
  untold _ _ := rfl
  stages _ _ h := by simp [start] at h
  budget _ _ := Nat.le_refl _
  order before k act h := by simp [start] at h

theorem Sound.steps {W W' : World σ} (h : W.Sound) (hsteps : Steps W W') : W'.Sound := by
  induction hsteps with
  | refl => exact h
  | tail _ hnext ih => exact ih.next hnext

/-- Whatever the callers do, the logs of a run stay a chain. -/
theorem sound_of_reachable {W : World σ} (h : W.Reachable) : W.Sound := sound_start.steps h

end World

end Dunning
