import Dunning.Proofs.Engine.Alone
import Dunning.Proofs.Engine.Idle
import Dunning.Proofs.Engine.PrefixChain

/-!
# Overlapping resumptions

Of several resumptions that have read the same version of a run, one may be written while
the others are on their way. A store compares nothing but lengths of logs. So the write of
the first keeps the others out when it makes the log longer or closes the run, and does
not when it is idle.
-/
namespace Dunning

/-- Where what a call is about to write comes from. -/
def Call.Sourced (call : Call) : Prop :=
  match call.stage with
  | .recording d => ∀ id, Resumed 0 id d.run.log d.run.pending
  | .loading c now =>
      c.run.continuation now = .ok (some c) ∧ ∀ id, Resumed 0 id c.run.log c.run.pending
  | .updating c d => (∃ flow now clock, c.run.continuation now = .ok (some c) ∧
      d = c.draft call.engine flow now clock) ∧ ∀ id, Resumed 0 id c.run.log c.run.pending
  | _ => True

/-- The version of a run that a call has read and not yet written. -/
def Stage.held? : Stage → Option Run
  | .loading c _ => some c.run
  | .updating c _ => some c.run
  | _ => none

/-- A resumption goes on for good behind every point that is due. -/
theorem Continuation.draft_resumed_due {c : Continuation} {now : Instant}
    (h : c.run.continuation now = .ok (some c)) {p : ResumePoint} (hp : p ∈ c.due)
    (held : Resumed 0 p.nodeId c.run.log c.run.pending) (e : Engine) (flow : Option Flow)
    (clock : Instant) : Resumed 1 p.nodeId (c.draft e flow now clock).run.log
      (c.draft e flow now clock).run.pending := by
  obtain ⟨hpending, hpast⟩ := (Run.mem_due_iff h).1 hp
  have hlater : c.later = c.run.pending.filter fun q => !q.resumeAt.le now := by
    rw [(Run.continuation_eq_some_iff.1 h).2.2]
  refine c.draft_resumed ?_ e flow now clock
  rw [hlater]
  exact held.of_parted _ hpending rfl (by simp [hpast])

namespace World

variable {σ : Type} [Store σ]

/-- The calls of a world are sourced, and so are the stored runs. -/
structure Sourced (W : World σ) : Prop where
  calls : ∀ (k : Nat) (call : Call), W.calls[k]? = some call → call.Sourced
  stored : ∀ id run, Store.getRun id W.store = .ok run → ∀ node, Resumed 0 node run.log run.pending

/-- A node of a run of which a wait has been resumed, and which cannot be waited for again: neither
the stored run nor a version that can still be written over tells of a wait there. -/
structure Spent (W : World σ) (runId node : String) (steps : Nat) : Prop where
  stored : ∃ run, Store.getRun runId W.store = .ok run ∧ steps ≤ run.log.length ∧
    Resumed 1 node run.log run.pending
  held : ∀ (k : Nat) (call : Call) (run : Run), W.calls[k]? = some call →
    call.stage.held? = some run → run.id = runId → steps ≤ run.log.length →
      Resumed 1 node run.log run.pending

/-- A run that is over is never written again. -/
def Closed (W : World σ) (run : Run) : Prop :=
  Store.getRun run.id W.store = .ok run ∧ run.status ≠ .waiting

/-- Nobody holds a version that is ahead of the stored one. -/
theorem Sound.held {W : World σ} (h : W.Sound) {k : Nat} {call : Call} {version : Run}
    (turn : W.calls[k]? = some call) (held : call.stage.held? = some version) :
    ∃ run, Store.getRun version.id W.store = .ok run ∧ version.log <+: run.log := by
  have hown := h.stages k call turn
  cases hstage : call.stage with
  | loading c now =>
    rw [hstage] at hown held
    obtain ⟨run, hrun, -, hlog⟩ := hown
    obtain rfl : c.run = version := Option.some.inj held
    exact ⟨run, hrun, hlog⟩
  | updating c d =>
    rw [hstage] at hown held
    obtain ⟨⟨run, hrun, -, hlog⟩, -⟩ := hown
    obtain rfl : c.run = version := Option.some.inj held
    exact ⟨run, hrun, hlog⟩
  | _ => rw [hstage] at held; cases held

variable [LawfulStore σ]

theorem Sourced.next {W W' : World σ} (sound : W.Sound) (h : W.Sourced) (hnext : Next W W') :
    W'.Sourced := by
  cases hnext with
  | save flow =>
    exact ⟨h.calls, fun id run hrun =>
      h.stored id run ((LawfulStore.getRun_saveFlow flow id W.store).symm.trans hrun)⟩
  | execute e w flow event mode source runId clock =>
    exact ⟨forall_calls_concat _ h.calls fun _ =>
      e.draft_resumed flow event mode source runId clock,
      h.stored⟩
  | record k call d store turn stage fresh done =>
    have hcall := h.calls k call turn
    rw [Call.Sourced, stage] at hcall
    obtain ⟨store', hstore', -, htold, hothers, -⟩ :=
      LawfulStore.recordRun_fresh d.run W.store fresh
    obtain rfl : store = store' := Except.ok.inj (done.symm.trans hstore')
    refine ⟨forall_calls_set _ h.calls trivial, fun id run hrun => ?_⟩
    by_cases hid : id = d.run.id
    · subst hid
      obtain ⟨event, -, rfl⟩ := (htold run).1 hrun
      exact hcall
    · exact h.stored id run ((hothers id hid).symm.trans hrun)
  | read e w runId now run c found due =>
    refine ⟨forall_calls_concat _ h.calls fun _ => ?_, h.stored⟩
    have hc : c.run = run := by rw [(Run.continuation_eq_some_iff.1 due).2.2]
    exact ⟨hc ▸ due, fun node => hc ▸ h.stored runId run found node⟩
  | load k call c now clock flow turn stage found =>
    have hcall := h.calls k call turn
    rw [Call.Sourced, stage] at hcall
    exact ⟨forall_calls_set _ h.calls ⟨⟨flow, now, clock, hcall.1, rfl⟩, hcall.2⟩, h.stored⟩
  | update k call c d store turn stage done =>
    obtain ⟨run, hread, -, -, -, hfound, hothers⟩ := sound.updateRun_ok turn stage done
    have hcall := h.calls k call turn
    rw [Call.Sourced, stage] at hcall
    obtain ⟨⟨flow, now, clock, hdue, rfl⟩, hheld⟩ := hcall
    refine ⟨forall_calls_set _ h.calls trivial, fun id other hother node => ?_⟩
    by_cases hid : id = (c.draft call.engine flow now clock).run.id
    · subst hid
      obtain rfl := Except.ok.inj (hfound.symm.trans hother)
      exact c.draft_resumed ((hheld node).of_sublist (Run.later_sublist hdue)) call.engine flow
        now clock
    · exact h.stored id other ((hothers id hid).symm.trans hother) node
  | handOff k call notice d turn stage => exact ⟨forall_calls_set _ h.calls trivial, h.stored⟩
  | abandon k call turn => exact ⟨forall_calls_set _ h.calls trivial, h.stored⟩

theorem sourced_of_reachable {W : World σ} (h : W.Reachable) : W.Sourced := by
  induction h with
  | refl =>
    refine ⟨fun k call hcall => by simp [start] at hcall, fun id run hrun => ?_⟩
    cases (LawfulStore.getRun_empty id).symm.trans hrun
  | tail hsteps hnext ih => exact ih.next (sound_of_reachable hsteps) hnext

theorem Spent.next {W W' : World σ} (sound : W.Sound) (sourced : W.Sourced)
    {runId node : String} {steps : Nat} (h : W.Spent runId node steps) (hnext : Next W W') :
    W'.Spent runId node steps := by
  have hlet : ∀ {new : Call} {k : Nat}, new.stage.held? = none → ∀ (i : Nat) (call : Call),
      (W.calls.set k new)[i]? = some call → ∀ run, call.stage.held? = some run → run.id = runId →
      steps ≤ run.log.length → Resumed 1 node run.log run.pending := by
    intro new k hnew
    exact forall_calls_set new (fun i call hcall run => h.held i call run hcall)
      fun run hrun => by cases hnew.symm.trans hrun
  obtain ⟨stored, hstored, hlength, hresumed⟩ := h.stored
  cases hnext with
  | save flow =>
    have hsaved := (LawfulStore.getRun_saveFlow flow runId W.store).trans hstored
    exact ⟨⟨stored, hsaved, hlength, hresumed⟩,
      h.held⟩
  | execute e w flow event mode source id clock =>
    have hcalls := forall_calls_concat ⟨e, w, .recording (e.draft flow event mode source id clock)⟩
      (fun i call hcall run => h.held i call run hcall) fun _ run hrun => by cases hrun
    exact ⟨h.stored, fun k call run hcall => hcalls k call hcall run⟩
  | record k call d store turn stage fresh done =>
    obtain ⟨store', hstore', -, -, hothers, -⟩ := LawfulStore.recordRun_fresh d.run W.store fresh
    obtain rfl : store = store' := Except.ok.inj (done.symm.trans hstore')
    have hid : runId ≠ d.run.id := by
      rintro rfl
      cases fresh.symm.trans hstored
    exact ⟨⟨stored, (hothers runId hid).trans hstored, hlength, hresumed⟩,
      fun i other run hother => hlet rfl i other hother run⟩
  | read e w id now run c found due =>
    have hc : c.run = run := by rw [(Run.continuation_eq_some_iff.1 due).2.2]
    have hcalls := forall_calls_concat ⟨e, w, .loading c now⟩
      (fun i call hcall run => h.held i call run hcall) fun _ version hversion hid _ => by
        obtain rfl : c.run = version := Option.some.inj hversion
        obtain rfl := (sound.told id run found).1
        rw [hc] at hid ⊢
        obtain rfl : run = stored := Except.ok.inj ((hid ▸ found).symm.trans hstored)
        exact hresumed
    exact ⟨h.stored, fun k call run hcall => hcalls k call hcall run⟩
  | load k call c now clock flow turn stage found =>
    have hheld : call.stage.held? = some c.run := by rw [stage]; rfl
    have hcalls := forall_calls_set (k := k)
      { call with stage := .updating c (c.draft call.engine flow now clock) }
      (fun i call hcall run => h.held i call run hcall)
      fun run hrun => h.held k call run turn (hheld.trans hrun)
    exact ⟨h.stored, fun i other run hother => hcalls i other hother run⟩
  | update k call c d store turn stage done =>
    obtain ⟨run, hread, -, hsame, hcontinues, hfound, hothers⟩ := sound.updateRun_ok turn stage done
    refine ⟨?_, fun i other run hother => hlet rfl i other hother run⟩
    by_cases hid : runId = d.run.id
    · subst hid
      obtain rfl : run = stored := Except.ok.inj (hread.symm.trans hstored)
      have hown := sound.stages k call turn
      have hcall := sourced.calls k call turn
      rw [Call.Sourced, stage] at hcall
      rw [stage] at hown
      obtain ⟨-, hdraft, hextends⟩ := hown
      obtain ⟨⟨flow, now, clock, hdue, rfl⟩, -⟩ := hcall
      have hheld := h.held k call c.run turn (by rw [stage]; rfl) hdraft.id_eq.symm
        (hsame ▸ hlength)
      exact ⟨_, hfound, Nat.le_trans (hsame ▸ hlength) hextends.grows.length_le,
        c.draft_resumed (hheld.of_sublist (Run.later_sublist hdue)) call.engine flow now clock⟩
    · exact ⟨stored, (hothers runId hid).trans hstored, hlength, hresumed⟩
  | handOff k call notice d turn stage =>
    exact ⟨h.stored, fun i other run hother => hlet rfl i other hother run⟩
  | abandon k call turn => exact ⟨h.stored, fun i other run hother => hlet rfl i other hother run⟩

/-- A write that makes the log longer leaves behind for good what it continued. -/
theorem Sound.spent_written {W : World σ} (h : W.Sound) (sourced : W.Sourced) {k : Nat}
    {call : Call} {c : Continuation} {d : Draft} {store : σ} (turn : W.calls[k]? = some call)
    (stage : call.stage = .updating c d)
    (done : Store.updateRun d.run c.run.log.length W.store = .ok store)
    (longer : c.run.log.length < d.run.log.length) {p : ResumePoint} (hp : p ∈ c.due) :
    (W.written k call (resumedNotice d) d store).Spent d.run.id p.nodeId d.run.log.length := by
  obtain ⟨run, hread, -, hsame, -, hfound, -⟩ := h.updateRun_ok turn stage done
  have hcall := sourced.calls k call turn
  rw [Call.Sourced, stage] at hcall
  obtain ⟨⟨flow, now, clock, hdue, rfl⟩, hheld⟩ := hcall
  have hstale : ∀ (i : Nat) (other : Call), W.calls[i]? = some other →
      ∀ version : Run, other.stage.held? = some version →
      version.id = (c.draft call.engine flow now clock).run.id →
      (c.draft call.engine flow now clock).run.log.length ≤ version.log.length →
      Resumed 1 p.nodeId version.log version.pending := by
    -- Whoever has read the run has read it with a log that is now too short.
    intro i other hother version hversion hid hlength
    obtain ⟨stored, hstored, hlog⟩ := h.held hother hversion
    obtain rfl : run = stored := Except.ok.inj (hread.symm.trans (hid ▸ hstored))
    have hle := hlog.length_le
    rw [← hsame] at hle
    omega
  have hcalls := forall_calls_set (k := k)
    { call with stage := .handingOff (resumedNotice (c.draft call.engine flow now clock))
                  (c.draft call.engine flow now clock) } hstale
    fun version hversion => by cases hversion
  exact ⟨⟨_, hfound, Nat.le_refl _,
    Continuation.draft_resumed_due hdue hp (hheld p.nodeId) call.engine flow clock⟩,
    fun i other version hother => hcalls i other hother version⟩

theorem Spent.steps {W W' : World σ} (h : W.Reachable) {runId node : String} {steps : Nat}
    (hspent : W.Spent runId node steps) (since : Steps W W') : W'.Spent runId node steps := by
  induction since with
  | refl => exact hspent
  | tail hsteps hnext ih =>
    have hreachable := Relation.ReflTransGen.trans h hsteps
    exact ih.next (sound_of_reachable hreachable) (sourced_of_reachable hreachable) hnext

theorem Closed.next {W W' : World σ} (sound : W.Sound) {run : Run} (h : W.Closed run)
    (hnext : Next W W') : W'.Closed run := by
  refine ⟨?_, h.2⟩
  cases hnext with
  | save flow => exact (LawfulStore.getRun_saveFlow flow run.id W.store).trans h.1
  | record k call d store turn stage fresh done =>
    obtain ⟨store', hstore', -, -, hothers, -⟩ := LawfulStore.recordRun_fresh d.run W.store fresh
    obtain rfl : store = store' := Except.ok.inj (done.symm.trans hstore')
    refine (hothers run.id fun hid => ?_).trans h.1
    cases (hid ▸ fresh).symm.trans h.1
  | update k call c d store turn stage done =>
    obtain ⟨stored, hread, hwaiting, -, -, -, hothers⟩ := sound.updateRun_ok turn stage done
    refine (hothers run.id fun hid => h.2 ?_).trans h.1
    obtain rfl : stored = run := Except.ok.inj (hread.symm.trans (hid ▸ h.1))
    exact hwaiting
  | _ => exact h.1

theorem Closed.steps {W W' : World σ} (h : W.Reachable) {run : Run} (hclosed : W.Closed run)
    (since : Steps W W') : W'.Closed run := by
  induction since with
  | refl => exact hclosed
  | tail hsteps hnext ih => exact ih.next (sound_of_reachable (.trans h hsteps)) hnext

/-- What becomes of a resumption when its turn comes: it is written if the stored run waits with the
log that it has read, and otherwise refused. -/
theorem Sound.updateRun_cases {W : World σ} (h : W.Sound) {k : Nat} {call : Call} {c : Continuation}
    {d : Draft} (turn : W.calls[k]? = some call) (stage : call.stage = .updating c d)
    (countable : LawfulStore.counts (σ := σ) c.run.log.length) :
    ∃ run, Store.getRun c.run.id W.store = .ok run ∧
      ((run.status = .waiting ∧ run.log = c.run.log ∧
          ∃ store, Store.updateRun d.run c.run.log.length W.store = .ok store) ∨
        (run.status ≠ .waiting ∧
          Store.updateRun d.run c.run.log.length W.store = .error (.notWaiting c.run.id)) ∨
        (run.status = .waiting ∧ run.log ≠ c.run.log ∧
          Store.updateRun d.run c.run.log.length W.store = .error (.conflict c.run.id))) := by
  have hown := h.stages k call turn
  rw [stage] at hown
  obtain ⟨⟨run, hrun, hcontinues, hlog⟩, hdraft, -⟩ := hown
  have hread : Store.getRun d.run.id W.store = .ok run := by rw [hdraft.id_eq]; exact hrun
  refine ⟨run, hrun, ?_⟩
  cases hdone : Store.updateRun d.run c.run.log.length W.store with
  | ok store =>
    obtain ⟨run', hread', hwaiting, hsame, -⟩ := h.updateRun_ok turn stage hdone
    obtain rfl : run = run' := Except.ok.inj (hread.symm.trans hread')
    exact .inl ⟨hwaiting, hsame.symm, store, rfl⟩
  | error problem =>
    rcases LawfulStore.updateRun_error d.run run _ W.store problem hread countable hdone with
      ⟨hover, rfl⟩ | ⟨hwaiting, hlength, rfl⟩
    · exact .inr (.inl ⟨hover, by rw [hdraft.id_eq]⟩)
    · refine .inr (.inr ⟨hwaiting, fun hsame => hlength (by rw [hsame]), by rw [hdraft.id_eq]⟩)

/-- Once a resumption that is not idle has been written, the run is never again as it was read, and
the points behind which it went on are never waited for again. -/
theorem gone_of_not_idle {W W' : World σ} (h : W.Reachable) {k : Nat} {call : Call}
    {c : Continuation} {d : Draft} {store : σ} (turn : W.calls[k]? = some call)
    (stage : call.stage = .updating c d)
    (done : Store.updateRun d.run c.run.log.length W.store = .ok store)
    (since : Steps (W.written k call (resumedNotice d) d store) W') {flow : Option Flow}
    {now clock : Instant} (due : c.run.continuation now = .ok (some c))
    (draft : d = c.draft call.engine flow now clock) (busy : ¬c.Idle flow) {run : Run}
    (told : Store.getRun c.run.id W'.store = .ok run) :
    (run.status ≠ .waiting ∨ run.log ≠ c.run.log) ∧
      ∀ p ∈ c.due, p.nodeId ∉ run.pending.map ResumePoint.nodeId := by
  have hsound := sound_of_reachable h
  have hsourced := sourced_of_reachable h
  have hwritten : (W.written k call (resumedNotice d) d store).Reachable :=
    .tail h (.update W k call c d store turn stage done)
  have hsound' := (sound_of_reachable hwritten).steps since
  have honce := hsound'.once c.run.id
  rw [← hsound'.log_eq told] at honce
  have hid : d.run.id = c.run.id := by rw [draft]; rfl
  have hagain := Continuation.draft_of_not_idle busy call.engine now clock
  rw [← draft] at hagain
  rcases hagain with hlonger | hover
  · have hspent : ∀ p ∈ c.due, d.run.log.length ≤ run.log.length ∧
        Resumed 1 p.nodeId run.log run.pending := by
      intro p hp
      have hthen := hsound.spent_written hsourced turn stage done hlonger hp
      obtain ⟨stored, hstored, hspec⟩ := (hthen.steps hwritten since).stored
      obtain rfl : stored = run := Except.ok.inj (hstored.symm.trans (hid ▸ told))
      exact hspec
    obtain ⟨-, ⟨p, hp, hpast⟩, -⟩ := Run.continuation_eq_some_iff.1 due
    have hlength := (hspent p ((Run.mem_due_iff due).2 ⟨hp, hpast⟩)).1
    refine ⟨.inr fun hsame => ?_, fun q hq => (hspent q hq).2.not_mem honce⟩
    rw [hsame] at hlength
    omega
  · obtain ⟨-, -, -, -, -, hfound, -⟩ := hsound.updateRun_ok turn stage done
    have hclosed : (W.written k call (resumedNotice d) d store).Closed d.run := ⟨hfound, hover⟩
    have hstored := (hclosed.steps hwritten since).1
    obtain rfl : d.run = run := Except.ok.inj (hstored.symm.trans (hid ▸ told))
    refine ⟨.inl hover, fun p hp => ?_⟩
    have hcall := hsourced.calls k call turn
    rw [Call.Sourced, stage] at hcall
    have hresumed := Continuation.draft_resumed_due due hp (hcall.2 p.nodeId) call.engine flow clock
    rw [← draft] at hresumed
    exact hresumed.not_mem honce

/-- Once a resumption has been written, the others that have read the same version are refused and
the points behind which it went on are never waited for again, unless it is idle. An idle one
leaves a run that another one can be written over as long as nobody else has done so. -/
theorem overlapping_resumes {W W' : World σ} (h : W.Reachable) {k : Nat} {call : Call}
    {c : Continuation} {d : Draft} {store : σ} (turn : W.calls[k]? = some call)
    (stage : call.stage = .updating c d)
    (done : Store.updateRun d.run c.run.log.length W.store = .ok store)
    (countable : LawfulStore.counts (σ := σ) c.run.log.length)
    (since : Steps (W.written k call (resumedNotice d) d store) W') :
    (∃ flow now clock, c.run.continuation now = .ok (some c) ∧
      d = c.draft call.engine flow now clock) ∧
    ∀ flow now clock, c.run.continuation now = .ok (some c) →
      d = c.draft call.engine flow now clock →
      (¬c.Idle flow →
        (∀ (k' : Nat) (call' : Call) (c' : Continuation) (d' : Draft), W'.calls[k']? = some call' →
          call'.stage = .updating c' d' → c'.run = c.run →
          Store.updateRun d'.run c'.run.log.length W'.store = .error (.notWaiting c.run.id) ∨
          Store.updateRun d'.run c'.run.log.length W'.store = .error (.conflict c.run.id)) ∧
        ∀ run, Store.getRun c.run.id W'.store = .ok run →
          ∀ p ∈ c.due, p.nodeId ∉ run.pending.map ResumePoint.nodeId) ∧
      (c.Idle flow → Store.getRun c.run.id W'.store = .ok d.run →
        ∀ (k' : Nat) (call' : Call) (c' : Continuation) (d' : Draft), W'.calls[k']? = some call' →
          call'.stage = .updating c' d' → c'.run = c.run →
          ∃ store', Store.updateRun d'.run c'.run.log.length W'.store = .ok store') := by
  have hwritten : (W.written k call (resumedNotice d) d store).Reachable :=
    .tail h (.update W k call c d store turn stage done)
  have hsound' := (sound_of_reachable hwritten).steps since
  have hcall := (sourced_of_reachable h).calls k call turn
  rw [Call.Sourced, stage] at hcall
  refine ⟨hcall.1, fun flow now clock hdue hdraft => ⟨fun hbusy => ?_, fun hidle hstored => ?_⟩⟩
  · refine ⟨fun k' call' c' d' turn' stage' hc' => ?_, fun run' hrun' =>
      (gone_of_not_idle h turn stage done since hdue hdraft hbusy hrun').2⟩
    obtain ⟨run', hrun', hfate⟩ := hsound'.updateRun_cases turn' stage' (hc' ▸ countable)
    rw [hc'] at hrun' hfate ⊢
    rcases hfate with ⟨hwaiting, hlog, -⟩ | ⟨-, hrefused⟩ | ⟨-, -, hrefused⟩
    · have hgone := gone_of_not_idle h turn stage done since hdue hdraft hbusy hrun'
      rcases hgone.1 with hover | hgrown
      · exact absurd hwaiting hover
      · exact absurd hlog hgrown
    · exact .inl hrefused
    · exact .inr hrefused
  · intro k' call' c' d' turn' stage' hc'
    obtain ⟨run', hrun', hfate⟩ := hsound'.updateRun_cases turn' stage' (hc' ▸ countable)
    rw [hc'] at hrun' hfate
    obtain rfl : d.run = run' := Except.ok.inj (hstored.symm.trans hrun')
    have hrun := Continuation.draft_of_idle hidle call.engine now clock
    rw [← hdraft] at hrun
    rcases hfate with ⟨-, -, hdone⟩ | ⟨hover, -⟩ | ⟨-, hgrown, -⟩
    · rw [hc']
      exact hdone
    · exact absurd (by rw [hrun]) hover
    · exact absurd (by rw [hrun]) hgrown

omit [LawfulStore σ] in
/-- Two callers who find points of a run due may both come to write over the same version. -/
theorem reachable_overlap {W : World σ} (h : W.Reachable) {runId : String} {run : Run}
    (found : Store.getRun runId W.store = .ok run) {now now' : Instant} {c c' : Continuation}
    (due : run.continuation now = .ok (some c)) (due' : run.continuation now' = .ok (some c'))
    {flow : Option Flow} (listed : Store.getFlow run.orgId run.flowId W.store = .ok flow)
    (e : Engine) (w : Surroundings) (clock : Instant) :
    ∃ (W' : World σ) (k k' : Nat), W'.Reachable ∧ k ≠ k' ∧
      W'.store = W.store ∧ W'.calls[k]? = some ⟨e, w, .updating c (c.draft e flow now clock)⟩ ∧
      W'.calls[k']? = some ⟨e, w, .updating c' (c'.draft e flow now' clock)⟩ := by
  have hc : c.run = run := by rw [(Run.continuation_eq_some_iff.1 due).2.2]
  have hc' : c'.run = run := by rw [(Run.continuation_eq_some_iff.1 due').2.2]
  let reading : Call := ⟨e, w, .loading c now⟩
  let reading' : Call := ⟨e, w, .loading c' now'⟩
  let W₁ := (W.begun reading).advance W.calls.length reading
    (.updating c (c.draft e flow now clock))
  have hread : Next W (W.begun reading) := .read W e w runId now run c found due
  have hload : Next (W.begun reading) W₁ :=
    .load _ _ reading c now clock flow (turn_begun W reading) rfl (hc.symm ▸ listed)
  have hread' : Next W₁ (W₁.begun reading') := .read W₁ e w runId now' run c' found due'
  have hload' := Next.load _ _ reading' c' now' clock flow (turn_begun W₁ reading') rfl
    (hc'.symm ▸ listed)
  have hturn : W₁.calls[W.calls.length]? =
      some ⟨e, w, .updating c (c.draft e flow now clock)⟩ := turn_set (turn_begun W reading) _
  have hlt : W.calls.length < W₁.calls.length := (List.getElem?_eq_some_iff.1 hturn).1
  have hreachable : World.Reachable _ := .tail (.tail (.tail (.tail h hread) hload) hread') hload'
  refine ⟨_, W.calls.length, W₁.calls.length, hreachable, Nat.ne_of_lt hlt, rfl, ?_,
    turn_set (turn_begun W₁ reading') _⟩
  show ((W₁.calls ++ [reading']).set W₁.calls.length _)[W.calls.length]? = _
  rw [List.getElem?_set_ne (Nat.ne_of_gt hlt), List.getElem?_append_left hlt]
  exact hturn

/-- Three waits of different length with nothing behind them. -/
def sidings : Flow where
  id := "sidings"
  orgId := "acme"
  name := "Sidings"
  status := .active
  nodes := [.atOrigin "t" (.trigger ⟨.invoiceOverdue, .none⟩), .atOrigin "w1" (.wait ⟨1, .hours⟩),
    .atOrigin "w2" (.wait ⟨2, .hours⟩), .atOrigin "w3" (.wait ⟨3, .hours⟩)]
  edges := [.plain "t1" "t" "w1", .plain "t2" "t" "w2", .plain "t3" "t" "w3"]
  deletedAt := none

namespace sidings

/-- The run that waits at all three. -/
def run : Run :=
  (Engine.numbered.draft sidings (.ofTrigger "acme" .invoiceOverdue) .live .manual "run1"
    .epoch).run

/-- The run as it is read two hours later. -/
def afterTwo : Continuation := ⟨run, [⟨"w1", .hour 1⟩, ⟨"w2", .hour 2⟩], [⟨"w3", .hour 3⟩]⟩

/-- The run as it is read one hour later. -/
def afterOne : Continuation := ⟨run, [⟨"w1", .hour 1⟩], [⟨"w2", .hour 2⟩, ⟨"w3", .hour 3⟩]⟩

theorem continuation_two : run.continuation (.hour 2) = .ok (some afterTwo) := by cbv

theorem continuation_one : run.continuation (.hour 1) = .ok (some afterOne) := by cbv

/-- A store that holds the flow and one run. -/
def holding (run : Run) : MemoryStore := { MemoryStore.empty.saveFlow sidings with runs := [run] }

/-- The flow has been executed. -/
theorem reachable_holding : ∃ W : World MemoryStore, W.Reachable ∧ W.store = holding run := by
  let W₀ : World MemoryStore := ⟨MemoryStore.empty.saveFlow sidings, [], []⟩
  have hsave : Steps start W₀ := .single (.save start sidings)
  obtain ⟨calls, hexecute⟩ := steps_runFlow W₀ .numbered .calm .epoch sidings
    (.ofTrigger "acme" .invoiceOverdue) .live .manual 0 rfl
  exact ⟨_, hsave.trans hexecute, by cbv⟩

theorem updateRun_two :
    Store.updateRun (afterTwo.draft .numbered (some sidings) (.hour 2) .epoch).run
      afterTwo.run.log.length (holding run) =
      .ok (holding (afterTwo.draft .numbered (some sidings) (.hour 2) .epoch).run) := by cbv

theorem updateRun_one :
    Store.updateRun (afterOne.draft .numbered (some sidings) (.hour 1) .epoch).run
      afterOne.run.log.length
      (holding (afterTwo.draft .numbered (some sidings) (.hour 2) .epoch).run) =
      .ok (holding (afterOne.draft .numbered (some sidings) (.hour 1) .epoch).run) := by cbv

theorem idle_two : afterTwo.Idle (some sidings) := by
  refine ⟨by decide, sidings, rfl, fun p hp edge hedge => ?_⟩
  have hnone : afterTwo.due.flatMap (fun p => (Graph.ofFlow sidings).outgoing p.nodeId) = [] := by
    cbv
  have hmem : edge ∈ afterTwo.due.flatMap (fun p => (Graph.ofFlow sidings).outgoing p.nodeId) :=
    List.mem_flatMap.2 ⟨p, hp, hedge⟩
  rw [hnone] at hmem
  cases hmem

theorem pending_two : (afterTwo.draft .numbered (some sidings) (.hour 2) .epoch).run.pending =
    [⟨"w3", .hour 3⟩] := by cbv

theorem pending_one : (afterOne.draft .numbered (some sidings) (.hour 1) .epoch).run.pending =
    [⟨"w2", .hour 2⟩, ⟨"w3", .hour 3⟩] := by cbv

end sidings

open sidings in
/-- The resumption of the first two waits is idle, so the other one can still be written. -/
theorem overlapping_resumes_sidings : ∃ (W : World MemoryStore) (k k' : Nat) (store : MemoryStore),
    W.Reachable ∧
    W.calls[k]? = some ⟨.numbered, .calm,
      .updating afterTwo (afterTwo.draft .numbered (some sidings) (.hour 2) .epoch)⟩ ∧
    W.calls[k']? = some ⟨.numbered, .calm,
      .updating afterOne (afterOne.draft .numbered (some sidings) (.hour 1) .epoch)⟩ ∧
    Store.updateRun (afterTwo.draft .numbered (some sidings) (.hour 2) .epoch).run
      afterTwo.run.log.length W.store = .ok store ∧ afterTwo.Idle (some sidings) ∧
    ∃ store', Store.updateRun (afterOne.draft .numbered (some sidings) (.hour 1) .epoch).run
      afterOne.run.log.length store = .ok store' := by
  obtain ⟨W, hreachable, hstore⟩ := reachable_holding
  obtain ⟨W', k, k', hreachable', hne, hstore', turn, turn'⟩ := reachable_overlap hreachable
    (hstore ▸ rfl : Store.getRun "run1" W.store = .ok run) continuation_two continuation_one
    (hstore ▸ rfl : Store.getFlow run.orgId run.flowId W.store = .ok (some sidings))
    .numbered .calm .epoch
  have hdone := updateRun_two
  rw [← hstore, ← hstore'] at hdone
  obtain ⟨-, hfate⟩ := overlapping_resumes hreachable' turn rfl hdone trivial .refl
  have hwrites := (hfate (some sidings) (.hour 2) .epoch continuation_two rfl).2 idle_two rfl
  have hother := hwrites k' _ afterOne _ ((List.getElem?_set_ne hne).trans turn') rfl rfl
  exact ⟨W', k, k', _, hreachable', turn, turn', hdone, idle_two, hother⟩

open sidings in
/-- A store compares lengths of logs only. After the idle resumption of two waits the resumption of
the first of them alone is written as well, and the run waits at the second again. -/
theorem both_overlapping_resumes_written : ∃ (W : World MemoryStore) (k k' : Nat)
    (call call' : Call) (c c' : Continuation) (d d' : Draft) (store store' : MemoryStore),
    W.Reachable ∧ k ≠ k' ∧ W.calls[k]? = some call ∧ call.stage = .updating c d ∧
    W.calls[k']? = some call' ∧ call'.stage = .updating c' d' ∧ c'.run = c.run ∧
    Store.updateRun d.run c.run.log.length W.store = .ok store ∧
    Store.updateRun d'.run c'.run.log.length store = .ok store' ∧
    ∃ p ∈ c.due, p ∉ d.run.pending ∧ p ∈ d'.run.pending ∧
      Store.getRun c.run.id store' = .ok d'.run := by
  obtain ⟨W, hreachable, hstore⟩ := reachable_holding
  obtain ⟨W', k, k', hreachable', hne, hstore', turn, turn'⟩ := reachable_overlap hreachable
    (hstore ▸ rfl : Store.getRun "run1" W.store = .ok run) continuation_two continuation_one
    (hstore ▸ rfl : Store.getFlow run.orgId run.flowId W.store = .ok (some sidings))
    .numbered .calm .epoch
  have hdone := updateRun_two
  rw [← hstore, ← hstore'] at hdone
  have hstored : Store.getRun afterTwo.run.id
      (holding (afterOne.draft .numbered (some sidings) (.hour 1) .epoch).run) =
        .ok (afterOne.draft .numbered (some sidings) (.hour 1) .epoch).run := rfl
  refine ⟨W', k, k', ⟨.numbered, .calm, .updating afterTwo _⟩,
    ⟨.numbered, .calm, .updating afterOne _⟩, afterTwo, afterOne, _, _, _, _, hreachable', hne,
    turn, rfl, turn', rfl, rfl, hdone, updateRun_one, ⟨"w2", .hour 2⟩,
    List.mem_cons_of_mem _ List.mem_cons_self, ?_, ?_, hstored⟩
  · rw [pending_two]
    decide
  · rw [pending_one]
    exact List.mem_cons_self

end World

end Dunning
