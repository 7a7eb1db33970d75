import Dunning.Proofs.Engine.Prediction
import Dunning.Proofs.Engine.Triggers
import Dunning.Proofs.Engine.Wakeups
import Dunning.Proofs.Engine.WellFormed

/-!
# How long a run can wait

A run waits at each wait of its flow at most once, since the log remembers where it has
been. Every call that writes the run takes a point from it, and points do not come back:
so a flow with `n` waits is resumed at most `n` times, also if its graph leads from a wait
to itself, and a run that is resumed whenever nothing is ahead of it ends.
-/
namespace Dunning

open WalkState

/-- The ids of the waits of a flow, each once. -/
def Flow.waitIds (flow : Flow) : List String :=
  ((flow.nodes.filter fun n => n.kind = .wait).map Node.id).dedup

/-- A node of the graph that waits is a wait of the flow. -/
theorem Flow.mem_waitIds {flow : Flow} {id : String} {node : Node} {w : Wait}
    (found : (Graph.ofFlow flow).node? id = some node) (body : node.body = .wait w) :
    id ∈ flow.waitIds := by
  rw [Graph.node?_ofFlow, Flow.node?] at found
  have hid : node.id = id := by simpa using List.find?_some found
  have hkind : node.kind = .wait := by rw [Node.kind, body, NodeBody.kind]
  refine List.mem_dedup.2 (List.mem_map.2 ⟨node, List.mem_filter.2 ⟨?_, by simp [hkind]⟩, hid⟩)
  exact List.mem_of_find?_eq_some found

/-- A log that tells of waiting at no node but the waits of the graph. -/
def WaitsAt (g : Graph) (log : List Step) : Prop :=
  ∀ step ∈ log, step.action = .waited →
    ∃ node w, g.node? step.nodeId = some node ∧ node.body = .wait w

theorem WaitsAt.append {g : Graph} {log more : List Step} (h : WaitsAt g log)
    (hmore : WaitsAt g more) : WaitsAt g (log ++ more) :=
  fun step hstep => (List.mem_append.1 hstep).elim (h step) (hmore step)

theorem WaitsAt.of_skipped {g : Graph} {step : Step} (h : step.action = .skipped) :
    WaitsAt g [step] := by
  intro other hother hwaited
  rw [List.mem_singleton.1 hother, h] at hwaited
  cases hwaited

/-- A wait step is logged by a wait. -/
theorem Move.waitsAt_of_fits {j : Journey} (s : WalkState) {moves : List Move}
    (fits : ∀ m ∈ moves, m.Fits j.graph) : WaitsAt j.graph (moves.filterMap (Move.step? j s)) := by
  intro step hstep hwaited
  obtain ⟨m, hm, hlogged⟩ := List.mem_filterMap.1 hstep
  have hfits := fits m hm
  rw [nodeId_of_step? hlogged]
  cases m with
  | visit id => cases hlogged
  | note id node action detail =>
    obtain rfl := Option.some.inj hlogged
    rcases hfits.2 with rfl | rfl | rfl <;> cases hwaited
  | enroll id node e =>
    obtain rfl := Option.some.inj hlogged
    split at hwaited <;> cases hwaited
  | wait id node w => exact ⟨node, w, hfits⟩

/-- Walks wait at waits only. -/
theorem WalkState.steady_waitsAt (j : Journey) : Steady j fun s => WaitsAt j.graph s.log where
  walk agenda s hs := by
    have hfits := j.fits_of_mem_course agenda s.visited
    rcases walk_cases j agenda s with ⟨-, hsame⟩ | ⟨-, hall⟩ | ⟨-, made, m, rest, hsplit, hcut, -⟩
    · rwa [hsame]
    · rw [hall]
      exact hs.append (Move.waitsAt_of_fits s hfits)
    · rw [hcut]
      have hmade : ∀ m ∈ made, m.Fits j.graph := fun m hm =>
        hfits m (hsplit ▸ List.mem_append_left _ hm)
      exact (hs.append (Move.waitsAt_of_fits s hmade)).append (.of_skipped rfl)
  remark step s hstep hs := by
    rcases record_cases s step with h | h | h <;> rw [h]
    · exact hs
    · exact hs.append (.of_skipped rfl)
    · exact hs.append (.of_skipped hstep.2)
  retime _ _ _ _ _ hs := hs

/-- A version of a run that was stored, and the points that its writer left where they were. -/
structure Version where
  run : Run
  kept : List ResumePoint

namespace Version

/-- The ids at which the run begins to wait with a version. -/
def entering (v : Version) : List String := (v.run.pending.diff v.kept).map ResumePoint.nodeId

/-- The ids at which a run begins to wait, version by version. -/
def entered (versions : List Version) : List String := versions.flatMap entering

theorem entered_concat (versions : List Version) (v : Version) :
    entered (versions ++ [v]) = entered versions ++ v.entering := by
  simp [entered]

end Version

/-- Taking a list away removes no more than its length. -/
theorem length_le_length_diff (points kept : List ResumePoint) :
    points.length ≤ (points.diff kept).length + kept.length := by
  induction kept generalizing points with
  | nil => simp
  | cons p rest ih =>
    have hrest := ih (points.erase p)
    have herased : points.length ≤ (points.erase p).length + 1 := by
      rw [List.length_erase]
      split <;> omega
    rw [List.diff_cons, List.length_cons]
    omega

/-- Of a draft that keeps points, no more enter than are handed over. -/
theorem Draft.Refills.count_entering_le {d : Draft} {log : List Step} {had : List ResumePoint}
    (h : d.Refills log had) (id : String) :
    (Version.mk d.run had).entering.count id + entries .waited id log ≤
      entries .waited id d.run.log := by
  obtain ⟨kept, hkept, hpending⟩ := h.pending
  have hsubperm : (d.run.pending.diff had).Subperm d.wakeups := by
    refine List.subperm_iff_count.2 fun p => ?_
    have hold : kept.count p ≤ had.count p := by
      rcases hkept with rfl | rfl
      · exact Nat.zero_le _
      · exact Nat.le_refl _
    rw [List.count_diff, hpending, List.count_append]
    omega
  obtain ⟨some, hperm, hsublist⟩ := hsubperm
  have hcount : ((d.run.pending.diff had).map ResumePoint.nodeId).count id ≤
      (d.wakeups.map ResumePoint.nodeId).count id := by
    rw [← (hperm.map ResumePoint.nodeId).count_eq id]
    exact (hsublist.map _).count_le id
  have hwaited := h.waited id
  simp only [Version.entering]
  omega

variable {σ : Type} [Store σ]

/-- The version that a call writes, if it writes one. -/
def Engine.version? (e : Engine) (w : Surroundings) (clock : Instant) (runId : String)
    (now : Instant) (r : Records σ) : Option Version :=
  (e.resumption? w clock runId now r).bind fun call =>
    (Store.getRun runId (e.resumeDue w clock runId now none r).records.store).toOption.map fun run =>
      ⟨run, call.continuation.later⟩

/-- The versions of a run of a flow, in the order in which they were stored. The run is executed
under an id that is not taken, resumptions follow each other, and in between everything may change
but the run and its flow. -/
inductive Chronicle (e : Engine) (flow : Flow) (runId : String) :
    Records σ → List Version → Prop where
  | executed (w : Surroundings) (clock : Instant) (event : Event) (source : RunSource)
      (r : Records σ) (listed : Store.getFlow flow.orgId flow.id r.store = .ok (some flow))
      (name : e.runId (r.named + 1) = runId)
      (fresh : Store.getRun runId r.store = .error (.notFound runId)) (run : Run)
      (written : (e.runFlow w clock flow event .live source r).answer = .ok run) :
      Chronicle e flow runId (e.runFlow w clock flow event .live source r).records [⟨run, []⟩]
  | meanwhile {r : Records σ} {versions : List Version} (before : Chronicle e flow runId r versions)
      (r' : Records σ) (same : Store.getRun runId r'.store = Store.getRun runId r.store)
      (listed : Store.getFlow flow.orgId flow.id r'.store = .ok (some flow)) :
      Chronicle e flow runId r' versions
  | resumed {r : Records σ} {versions : List Version} (before : Chronicle e flow runId r versions)
      (w : Surroundings) (clock now : Instant) :
      Chronicle e flow runId (e.resumeDue w clock runId now none r).records
        (versions ++ (e.version? w clock runId now r).toList)

variable [LawfulStore σ]

/-- A number of calls each of which reaches the store and comes when no point of the run is ahead. As
long as the run waits, the store can count its log. -/
inductive Pressed (e : Engine) (flow : Flow) (runId : String) (r : Records σ) :
    Nat → Records σ → Prop where
  | start : Pressed e flow runId r 0 r
  | meanwhile {n : Nat} {r' : Records σ} (before : Pressed e flow runId r n r') (r'' : Records σ)
      (same : Store.getRun runId r''.store = Store.getRun runId r'.store)
      (listed : Store.getFlow flow.orgId flow.id r''.store = .ok (some flow)) :
      Pressed e flow runId r n r''
  | resumed {n : Nat} {r' : Records σ} (before : Pressed e flow runId r n r') (w : Surroundings)
      (reliable : w.Reliable) (clock now : Instant)
      (late : ∀ run, Store.getRun runId r'.store = .ok run →
        ∀ p ∈ run.pending, p.resumeAt.le now = true)
      (countable : ∀ run, Store.getRun runId r'.store = .ok run → run.status = .waiting →
        LawfulStore.counts σ run.log.length) :
      Pressed e flow runId r (n + 1) (e.resumeDue w clock runId now none r').records

/-- What a chronicle has come to: the run was stored last as `last`. Where it began to wait, its log
tells of a wait; and every version but the first has cost it a point. -/
structure Tallied (limit : Nat) (flow : Flow) (runId : String) (r : Records σ)
    (versions : List Version) (last : Run) : Prop where
  listed : Store.getFlow flow.orgId flow.id r.store = .ok (some flow)
  told : ∀ run, Store.getRun runId r.store = .ok run →
    { run with triggerEvent := last.triggerEvent } = last
  whole : LawfulStore.tells σ last.triggerEvent → Store.getRun runId r.store = .ok last
  readable : LawfulStore.Retains σ last.triggerEvent → ∃ amount, Store.getRun runId r.store =
    .ok { last with triggerEvent := { last.triggerEvent with amount := amount } }
  latest : versions.getLast?.map Version.run = some last
  id : last.id = runId
  flowId : last.flowId = flow.id
  orgId : last.orgId = flow.orgId
  coherent : last.Coherent limit
  once : EnteredOnce last.log
  waits : WaitsAt (.ofFlow flow) last.log
  entered : ∀ id, (Version.entered versions).count id ≤ entries .waited id last.log
  spent : versions.tail.length + last.pending.length ≤ (Version.entered versions).length

namespace Tallied

variable {limit : Nat} {flow : Flow} {runId : String} {r : Records σ} {versions : List Version}
  {last run : Run} {e : Engine}

/-- No id is entered twice. -/
theorem nodup (h : Tallied limit flow runId r versions last) :
    (Version.entered versions).Nodup := by
  refine List.nodup_iff_count_le_one.2 fun id => ?_
  exact (h.entered id).trans (h.once.once .waited id (by decide))

/-- Only waits of the flow are entered. -/
theorem subset_waitIds (h : Tallied limit flow runId r versions last) :
    Version.entered versions ⊆ flow.waitIds := by
  intro id hid
  have hpos : 0 < entries .waited id last.log :=
    Nat.lt_of_lt_of_le (List.count_pos_iff.2 hid) (h.entered id)
  obtain ⟨step, hstep, hof⟩ := List.countP_pos_iff.1 hpos
  simp only [Step.isOf, Bool.and_eq_true, beq_iff_eq] at hof
  obtain ⟨node, w, hfound, hbody⟩ := h.waits step hstep hof.1
  exact hof.2 ▸ Flow.mem_waitIds hfound hbody

/-- A run has no more versions and points than its flow has waits. -/
theorem length_le (h : Tallied limit flow runId r versions last) :
    versions.tail.length + last.pending.length ≤ flow.waitIds.length :=
  h.spent.trans (h.nodup.subperm h.subset_waitIds).length_le

/-- A run that the store tells is held there together with its flow. -/
theorem holds (h : Tallied limit flow runId r versions last)
    (hread : Store.getRun runId r.store = .ok run) : Holds flow run.triggerEvent runId r run := by
  have hsame := h.told run hread
  refine ⟨h.listed, hread, ?_, ?_, ?_, rfl⟩
  · rw [← h.id, ← hsame]
  · rw [← h.flowId, ← hsame]
  · rw [← h.orgId, ← hsame]

/-- A run that the store tells is coherent, whatever has become of its event. -/
theorem coherent_of_read (h : Tallied limit flow runId r versions last)
    (hread : Store.getRun runId r.store = .ok run) : run.Coherent limit := by
  have hlast := h.coherent
  rw [← h.told run hread] at hlast
  have hback : Run.Coherent limit { run with triggerEvent := run.triggerEvent } := hlast.of_event
  exact hback

/-- What happens elsewhere does no harm. -/
theorem meanwhile (h : Tallied limit flow runId r versions last) {r' : Records σ}
    (same : Store.getRun runId r'.store = Store.getRun runId r.store)
    (listed : Store.getFlow flow.orgId flow.id r'.store = .ok (some flow)) :
    Tallied limit flow runId r' versions last :=
  { h with
    listed := listed
    told := fun run hread => h.told run (same.symm.trans hread)
    whole := fun htells => same.trans (h.whole htells)
    readable := fun hretains => (h.readable hretains).imp fun _ => same.trans }

/-- A version written behind the points that were due. -/
theorem concat (h : Tallied limit flow runId r versions last)
    (hread : Store.getRun runId r.store = .ok run) {now : Instant} {c : Continuation}
    (due : run.continuation now = .ok (some c)) (scheduling : e.hasScheduler = true)
    (maxSteps : e.settings.maxSteps = limit) {clock : Instant} {d : Draft}
    (draft : c.draft e (some flow) now clock = d) {r' : Records σ}
    (held : Holds flow run.triggerEvent runId r' d.run) :
    Tallied limit flow runId r' (versions ++ [⟨d.run, c.later⟩]) d.run := by
  obtain ⟨hwaiting, ⟨p, hp, hpast⟩, hc⟩ := Run.continuation_eq_some_iff.1 due
  have hcrun : c.run = run := by rw [hc]
  have hlater : c.later.length < run.pending.length := by
    rw [hc]
    exact List.length_filter_lt_length_iff_exists.2 ⟨p, hp, by simp [hpast]⟩
  have hsame := h.told run hread
  have hlog : last.log = c.run.log := by rw [← hsame, hcrun]
  have hpending : last.pending = run.pending := by rw [← hsame]
  have hrefills : d.Refills c.run.log c.later :=
    draft ▸ c.draft_refills (hlog ▸ h.once) scheduling (some flow) now clock
  refine ⟨held.listed, fun told htold => ?_, fun _ => held.told, fun _ => ⟨_, held.told⟩, by simp,
    held.id, held.flowId, held.orgId, ?_, hrefills.once, ?_, fun id => ?_, ?_⟩
  · obtain rfl : d.run = told := Except.ok.inj (held.told.symm.trans htold)
    rfl
  · exact draft ▸ Continuation.coherent_draft (hcrun ▸ h.coherent_of_read hread)
      (hcrun ▸ hwaiting) maxSteps _ now clock
  · have hstart : WaitsAt (c.journey (some flow)).graph (c.start e now clock).log := by
      rw [Continuation.start_log, ← hlog]
      exact h.waits
    exact draft ▸ (steady_waitsAt (c.journey (some flow))).continuation hstart
  · have hbefore := h.entered id
    have hadded := hrefills.count_entering_le id
    rw [hlog] at hbefore
    rw [Version.entered_concat, List.count_append]
    omega
  · obtain ⟨first, rest, rfl⟩ := List.exists_cons_of_ne_nil (l := versions) fun hnil => by
      have hlatest := h.latest
      rw [hnil] at hlatest
      cases hlatest
    have hspent := h.spent
    have hadded := length_le_length_diff d.run.pending c.later
    rw [Version.entered_concat]
    simp only [hpending, List.cons_append, List.tail_cons, List.length_append,
      List.length_singleton, Version.entering, List.length_map] at hspent ⊢
    omega

/-- A call that continues the run stores the version that it writes. -/
theorem written (h : Tallied limit flow runId r versions last) {w : Surroundings}
    {clock now : Instant} {call : Resumption}
    (continued : e.resumption? w clock runId now r = some call) :
    ∃ run d, Store.getRun runId r.store = .ok run ∧
      run.continuation now = .ok (some call.continuation) ∧
      call.continuation.draft e (some flow) now clock = d ∧
      e.version? w clock runId now r = some ⟨d.run, call.continuation.later⟩ ∧
      Holds flow run.triggerEvent runId (e.resumeDue w clock runId now none r).records d.run := by
  obtain ⟨-, run, -, -, hread, -⟩ := Engine.spec_of_resumption_some continued
  obtain ⟨-, hdue, hheld⟩ := (h.holds hread).resume continued
  refine ⟨run, _, hread, hdue, rfl, ?_, hheld⟩
  rw [Engine.version?, continued, Option.bind_some, hheld.told]
  rfl

/-- A call writes one more version of the run, or leaves everything as it is. -/
theorem resume (h : Tallied limit flow runId r versions last) (scheduling : e.hasScheduler = true)
    (maxSteps : e.settings.maxSteps = limit) (w : Surroundings) (clock now : Instant) :
    ∃ last', Tallied limit flow runId (e.resumeDue w clock runId now none r).records
      (versions ++ (e.version? w clock runId now r).toList) last' := by
  cases hcall : e.resumption? w clock runId now r with
  | none =>
    rw [Engine.version?, hcall, Engine.records_of_resumption_none hcall]
    exact ⟨last, by simpa using h⟩
  | some call =>
    obtain ⟨run, d, hread, hdue, hdraft, hversion, hheld⟩ := h.written hcall
    rw [hversion]
    exact ⟨d.run, h.concat hread hdue scheduling maxSteps hdraft hheld⟩

end Tallied

variable {e : Engine} {flow : Flow} {runId : String} {r : Records σ} {versions : List Version}

/-- Every chronicle can be tallied. -/
theorem Chronicle.tallied (h : Chronicle e flow runId r versions)
    (scheduling : e.hasScheduler = true) :
    ∃ last, Tallied e.settings.maxSteps flow runId r versions last := by
  induction h with
  | executed w clock event source r listed name fresh run written =>
    subst name
    obtain ⟨htold, hflows, -⟩ := recorded_of_runFlow fresh written
    obtain rfl := run_of_runFlow written
    let d := e.draft flow event .live source (e.runId (r.named + 1)) clock
    have hrefills : d.Refills [] [] := e.draft_refills flow event .live source _ clock
    have hwaits : WaitsAt (.ofFlow flow) d.run.log :=
      (steady_waitsAt ⟨.ofFlow flow, { event with orgId := flow.orgId }, .live⟩).walkFlow
        fun step hstep => by cases hstep
    refine ⟨d.run, (hflows _ _).trans listed, fun told hread => ?_,
      fun htells => (htold d.run).2 ⟨_, htells, rfl⟩,
      fun ⟨amount, hamount⟩ => ⟨amount, (htold _).2 ⟨_, hamount, rfl⟩⟩, rfl, rfl, rfl,
      rfl, Engine.coherent_draft rfl flow event .live source _ clock, hrefills.once, hwaits,
      fun id => ?_, ?_⟩
    · obtain ⟨event, -, rfl⟩ := (htold told).1 hread
      rfl
    · have hadded := hrefills.count_entering_le id
      simpa [Version.entered, entries] using hadded
    · simp [Version.entered, Version.entering, d]
  | meanwhile before r' same listed ih =>
    obtain ⟨last, hlast⟩ := ih
    exact ⟨last, hlast.meanwhile same listed⟩
  | resumed before w clock now ih =>
    obtain ⟨last, hlast⟩ := ih
    exact hlast.resume scheduling rfl w clock now

/-- As long as a run waits, each call that finds nothing ahead writes it. -/
theorem Pressed.chronicle {n : Nat} {r' : Records σ} (h : Pressed e flow runId r n r')
    (before : Chronicle e flow runId r versions) (scheduling : e.hasScheduler = true) {run : Run}
    (told : Store.getRun runId r.store = .ok run) :
    ∃ more run', Chronicle e flow runId r' (versions ++ more) ∧
      Store.getRun runId r'.store = .ok run' ∧ (run'.status = .waiting → n ≤ more.length) := by
  induction h with
  | start => exact ⟨[], run, by simpa using before, told, fun _ => Nat.zero_le _⟩
  | meanwhile pressed r'' same listed ih =>
    obtain ⟨more, run', hchronicle, hread, hless⟩ := ih
    exact ⟨more, run', hchronicle.meanwhile r'' same listed, same.trans hread, hless⟩
  | @resumed n r' pressed w reliable clock now late countable ih =>
    obtain ⟨more, run', hchronicle, hread, hless⟩ := ih
    obtain ⟨last, hlast⟩ := hchronicle.tallied scheduling
    have hnext := hchronicle.resumed w clock now
    cases hcall : e.resumption? w clock runId now r' with
    | none =>
      rw [Engine.version?, hcall, Engine.records_of_resumption_none hcall] at hnext
      rw [Engine.records_of_resumption_none hcall]
      refine ⟨more, run', by simpa using hnext, hread, fun hwaiting => ?_⟩
      -- A run that waits has points, all of them due, and so the call would have continued it.
      have hcoherent := hlast.coherent_of_read hread
      obtain ⟨p, hp⟩ := List.exists_mem_of_ne_nil _ (hcoherent.waiting.1 hwaiting)
      have hdue := Run.continuation_eq_some_iff.2 ⟨hwaiting, ⟨p, hp, late run' hread p hp⟩, rfl⟩
      obtain ⟨answer, hanswer⟩ := (hlast.holds hread).exists_answer hdue
        (countable run' hread hwaiting) e reliable clock
      simp only [Engine.resumption?, hread, hdue, hanswer, Option.map_some, reduceCtorEq] at hcall
    | some call =>
      obtain ⟨run, d, hread', hdue, -, hversion, hheld⟩ := hlast.written hcall
      obtain rfl := Except.ok.inj (hread.symm.trans hread')
      have hwaited := hless (Run.continuation_eq_some_iff.1 hdue).1
      rw [hversion, List.append_assoc] at hnext
      refine ⟨_, d.run, hnext, hheld.told, fun _ => ?_⟩
      rw [List.length_append]
      exact Nat.add_le_add_right hwaited 1

/-- How often a run can wait. It comes to wait at each wait of its flow at most once over its whole
life, so that no more calls write it than there are waits. Calls that come when no point is ahead
end it, as many of them as there are waits left. The store never loses the run. -/
theorem waits_run_out (scheduling : e.hasScheduler = true) (h : Chronicle e flow runId r versions) :
    ∃ last, versions.getLast?.map Version.run = some last ∧
      (LawfulStore.tells σ last.triggerEvent → Store.getRun runId r.store = .ok last) ∧
      (LawfulStore.Retains σ last.triggerEvent → ∃ amount, Store.getRun runId r.store =
        .ok { last with triggerEvent := { last.triggerEvent with amount := amount } }) ∧
      (Version.entered versions).Nodup ∧ Version.entered versions ⊆ flow.waitIds ∧
      versions.tail.length ≤ flow.waitIds.length ∧
      ∀ n r', Pressed e flow runId r n r' → flow.waitIds.length ≤ versions.tail.length + n →
        ∀ run, Store.getRun runId r.store = .ok run →
          ∃ run', Store.getRun runId r'.store = .ok run' ∧ run'.status.isTerminal = true := by
  obtain ⟨last, hlast⟩ := h.tallied scheduling
  refine ⟨last, hlast.latest, hlast.whole, hlast.readable, hlast.nodup, hlast.subset_waitIds,
    Nat.le_trans (Nat.le_add_right _ _) hlast.length_le, ?_⟩
  intro n r' pressed hmany run hread
  obtain ⟨more, run', hchronicle, hread', hless⟩ :=
    pressed.chronicle h scheduling hread
  refine ⟨run', hread', bne_iff_ne.2 fun hwaiting => ?_⟩
  obtain ⟨last', hlast'⟩ := hchronicle.tallied scheduling
  have hsame := hlast'.told run' hread'
  have hpending : last'.pending = run'.pending := by rw [← hsame]
  have hpoints := (hlast'.coherent_of_read hread').waiting.1 hwaiting
  have hpositive := List.length_pos_iff.2 hpoints
  have hbound := hlast'.length_le
  have hcalls := hless hwaiting
  obtain ⟨first, rest, rfl⟩ := List.exists_cons_of_ne_nil (l := versions) fun hnil => by
    have hlatest := hlast.latest
    rw [hnil] at hlatest
    cases hlatest
  rw [hpending] at hbound
  simp only [List.cons_append, List.tail_cons, List.length_append] at hbound hmany
  omega

/-- Two waits that lead to each other. -/
def shuttle : Flow where
  id := "shuttle"
  orgId := "acme"
  name := "Shuttle"
  status := .active
  nodes := [.atOrigin "t" (.trigger ⟨.invoiceOverdue, .none⟩), .atOrigin "w1" (.wait ⟨1, .hours⟩),
    .atOrigin "w2" (.wait ⟨2, .hours⟩)]
  edges := [.plain "t1" "t" "w1", .plain "12" "w1" "w2", .plain "21" "w2" "w1"]
  deletedAt := none

namespace shuttle

def event : Event := .ofTrigger "acme" .invoiceOverdue

/-- A store that holds the flow. -/
def stored : Records MemoryStore := ⟨MemoryStore.empty.saveFlow shuttle, 0⟩

/-- The records after the execution. -/
def executed : Records MemoryStore :=
  (Engine.numbered.runFlow .calm .epoch shuttle event .live .manual stored).records

/-- The records after the first resumption, which comes to the second wait. -/
def halfway : Records MemoryStore :=
  (Engine.numbered.resumeDue .calm (.hour 1) "run1" (.hour 1) none executed).records

/-- The records after the second resumption, which comes back to the first wait. -/
def back : Records MemoryStore :=
  (Engine.numbered.resumeDue .calm (.hour 3) "run1" (.hour 3) none halfway).records

theorem pending_executed : (Store.getRun "run1" executed.store).map Run.pending =
    .ok [⟨"w1", .hour 1⟩] := by cbv

theorem pending_halfway : (Store.getRun "run1" halfway.store).map Run.pending =
    .ok [⟨"w2", .hour 3⟩] := by cbv

/-- Of a run that is read, no point is ahead at the time of its only one. -/
theorem late {read : Except StoreProblem Run} {id : String} {t : Instant}
    (pending : read.map Run.pending = .ok [⟨id, t⟩]) :
    ∀ run, read = .ok run → ∀ p ∈ run.pending, p.resumeAt.le t = true := by
  rintro run rfl p hp
  obtain rfl : p = ⟨id, t⟩ := by
    rw [Except.ok.inj pending] at hp
    exact List.mem_singleton.1 hp
  exact Instant.le_refl _

theorem pressed : Pressed .numbered shuttle "run1" executed 2 back :=
  have calm : Surroundings.calm.Reliable := ⟨fun _ _ => rfl, fun _ => rfl, fun _ => rfl⟩
  (Pressed.start.resumed .calm calm (.hour 1) (.hour 1) (late pending_executed)
    fun _ _ _ => trivial).resumed .calm calm (.hour 3) (.hour 3) (late pending_halfway)
    fun _ _ _ => trivial

end shuttle

open shuttle in
/-- Back and forth, the run waits once at each wait, and the second call ends it. -/
theorem waits_run_out_shuttle : shuttle.waitIds = ["w1", "w2"] ∧
    (∃ versions, Chronicle .numbered shuttle "run1" back versions ∧
      Version.entered versions = ["w1", "w2"] ∧ versions.tail.length = 2 ∧
      (Version.entered versions).Nodup) ∧
    Pressed .numbered shuttle "run1" executed 2 back ∧
    ∃ run, Store.getRun "run1" back.store = .ok run ∧ run.status.isTerminal = true := by
  have hbegun : Chronicle .numbered shuttle "run1" executed _ :=
    .executed .calm .epoch event .manual stored rfl rfl rfl _ rfl
  have hlived := (hbegun.resumed .calm (.hour 1) (.hour 1)).resumed .calm (.hour 3) (.hour 3)
  obtain ⟨-, -, -, -, -, -, -, hends⟩ := waits_run_out rfl hbegun
  obtain ⟨-, -, -, -, hnodup, -⟩ := waits_run_out rfl hlived
  refine ⟨by cbv, ⟨_, hlived, by cbv, by cbv, hnodup⟩, pressed, ?_⟩
  exact hends 2 back pressed (by decide) _ rfl

end Dunning
