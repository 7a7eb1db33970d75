import Dunning.Proofs.Engine.InTurn
import Dunning.Proofs.Engine.Renaming

/-!
# Flows of one event do not touch each other

However the tasks of an event interleave and whoever of the others fails or breaks down,
each flow that reacts is attempted and comes to what it would come to by itself. Executing
the flows one after the other is one of the interleavings.
-/
namespace Dunning

/-- Of what items with distinct keys contribute under their keys, one key selects one contribution. -/
theorem filter_filterMap_of_nodup {α β κ : Type} [DecidableEq κ] (key : α → κ) (key' : β → κ)
    {f : α → Option β} (own : ∀ x y, f x = some y → key' y = key x) {items : List α}
    (distinct : (items.map key).Nodup) {x : α} (mem : x ∈ items) :
    ((items.filterMap f).filter fun y => key' y == key x) = (f x).toList := by
  induction items with
  | nil => cases mem
  | cons first rest ih =>
    rw [List.map_cons, List.nodup_cons] at distinct
    have hrest : ∀ y ∈ rest.filterMap f, ∃ z ∈ rest, key' y = key z := by
      intro y hy
      obtain ⟨z, hz, hf⟩ := List.mem_filterMap.1 hy
      exact ⟨z, hz, own z y hf⟩
    rw [show (first :: rest).filterMap f = (f first).toList ++ rest.filterMap f by
      cases hf : f first <;> simp [hf], List.filter_append]
    rcases List.mem_cons.1 mem with rfl | mem
    · have hself : ((f x).toList.filter fun y => key' y == key x) = (f x).toList := by
        refine List.filter_eq_self.2 fun y hy => ?_
        exact beq_iff_eq.2 (own x y (Option.mem_toList.1 hy))
      have hothers : ((rest.filterMap f).filter fun y => key' y == key x) = [] := by
        refine List.filter_eq_nil_iff.2 fun y hy hsame => distinct.1 ?_
        obtain ⟨z, hz, hkey⟩ := hrest y hy
        exact List.mem_map.2 ⟨z, hz, hkey.symm.trans (beq_iff_eq.1 hsame)⟩
      rw [hself, hothers, List.append_nil]
    · have hfirst : ((f first).toList.filter fun y => key' y == key x) = [] := by
        refine List.filter_eq_nil_iff.2 fun y hy hsame => distinct.1 ?_
        refine List.mem_map.2 ⟨x, mem, ?_⟩
        exact (beq_iff_eq.1 hsame).symm.trans (own first y (Option.mem_toList.1 hy))
      rw [hfirst, List.nil_append, ih distinct.2 mem]

/-- Some items contribute, each one thing, and the others nothing. -/
theorem filterMap_eq_map_filter {α β : Type} {f : α → Option β} {p : α → Bool} {g : α → β}
    {items : List α} (h : ∀ x ∈ items, f x = if p x then some (g x) else none) :
    items.filterMap f = (items.filter p).map g := by
  induction items with
  | nil => rfl
  | cons x rest ih =>
    have hfirst := h x List.mem_cons_self
    rw [List.filterMap_cons, List.filter_cons, hfirst, ih fun y hy => h y (List.mem_cons_of_mem x hy)]
    split <;> simp_all

namespace FanOut

variable {σ : Type} [Store σ] {F : FanOut}

theorem flows_eq [StockedStore σ] {s : σ} {flows : List Flow} (begun : F.Begins s)
    (stock : StockedStore.Holds s flows) : F.tasks.map Task.flow = flows.filter fun flow =>
      flow.orgId == F.event.orgId && flow.isLive &&
        F.engine.settings.matcher.anyMatching flow F.event := by
  obtain ⟨found, hfound, hflows⟩ := begun.listed
  have hlisted : Store.activeFlows F.event.orgId s = .ok found := by
    unfold Surroundings.findFlows at hfound
    split at hfound
    · cases hfound
    · exact hfound
  rw [hflows, StockedStore.activeFlows_eq stock hlisted, Matcher.select, List.filter_filter]
  refine List.filter_congr fun flow _ => ?_
  cases flow.orgId == F.event.orgId <;> cases flow.isLive <;> simp

/-- No flow is attempted twice. -/
theorem nodup_flowIds [StockedStore σ] {s : σ} {flows : List Flow} (begun : F.Begins s)
    (stock : StockedStore.Holds s flows) : (F.tasks.map fun t => t.flow.id).Nodup := by
  have hmap : (F.tasks.map fun t => t.flow.id) = (F.tasks.map Task.flow).map Flow.id := by
    rw [List.map_map]
    rfl
  rw [hmap, flows_eq begun stock]
  exact (StockedStore.nodup stock).sublist (List.filter_sublist.map _)

section Outcome

/-- A failure is reported on behalf of the flow that failed. -/
theorem flowId_of_failure? {orgId : String} {attempted : String × Except EngineProblem Run}
    {deed : Deed} (h : Engine.failure? orgId attempted = some deed) : deed.flowId = attempted.1 := by
  unfold Engine.failure? at h
  split at h
  · obtain rfl := Option.some.inj h
    rfl
  · cases h

omit [Store σ] in
/-- What is done on behalf of a flow is done by its task, or reported of it. -/
theorem deedsFor_done {P : State σ} (flowIds : (F.tasks.map fun t => t.flow.id).Nodup) {t : Task}
    (mem : t ∈ F.tasks) : deedsFor t.flow.id (F.done P) =
      deedsFor t.flow.id P.trace ++
        (Engine.failure? F.event.orgId (t.flow.id, F.answer P t)).toList := by
  refine (deedsFor_append ..).trans (congrArg _ ?_)
  rw [answers, List.filterMap_map]
  refine filter_filterMap_of_nodup (fun t : Task => t.flow.id) Deed.flowId ?_ flowIds mem
  exact fun x deed hdeed => flowId_of_failure? hdeed

variable [LawfulStore σ]

/-- What a task comes to in the end: its run is recorded and handed off, or it has failed and is
reported. -/
theorem Sound.over {s : σ} {P : State σ} (h : F.Sound s P) (ended : F.Ended P) {t : Task}
    (mem : t ∈ F.tasks) :
    (F.delivers t = true ∧ F.answer P t = .ok (F.draft t).run ∧
      deedsFor t.flow.id P.trace = F.deeds t ∧ (F.draft t).run.KeptBy P.store) ∨
    (F.delivers t = false ∧ (∃ problem, F.answer P t = .error problem) ∧
      deedsFor t.flow.id P.trace = [] ∧
      Store.getRun t.runId P.store = .error (.notFound t.runId)) := by
  have hover := over_of_ended ended mem
  cases h.stands t mem with
  | recording turn =>
    rcases hover with hdone | ⟨problem, hfailed⟩
    · cases turn.symm.trans hdone
    · cases turn.symm.trans hfailed
  | handingOff rest turn delivered done written =>
    obtain rfl : rest = [] := by
      rcases hover with hdone | ⟨problem, hfailed⟩
      · exact Progress.handingOff.inj (turn.symm.trans hdone)
      · cases turn.symm.trans hfailed
    refine .inl ⟨delivered, ?_, by rw [← done, List.append_nil], written⟩
    simp only [answer, turn]
  | failed problem turn refused idle unwritten =>
    refine .inr ⟨refused, ⟨problem, ?_⟩, idle, unwritten⟩
    simp only [answer, turn]

/-- The ids that are told are those of the runs that reached the store. -/
theorem Sound.ids_eq {s : σ} {P : State σ} (h : F.Sound s P) (ended : F.Ended P) :
    F.ids P = (F.tasks.filter F.delivers).map Task.runId := by
  have htold : ∀ t ∈ F.tasks, (F.answer P t).toOption.map Run.id =
      if F.delivers t then some t.runId else none := by
    intro t mem
    rcases h.over ended mem with ⟨hdelivers, hanswer, -⟩ | ⟨hrefused, ⟨problem, hanswer⟩, -⟩
    · rw [hanswer, hdelivers]
      rfl
    · rw [hanswer, hrefused]
      rfl
  exact (List.filterMap_map ..).trans (filterMap_eq_map_filter htold)

/-- A run that reaches the store is kept there and handed off. -/
theorem Sound.of_delivered {s : σ} {P : State σ} (h : F.Sound s P) (ended : F.Ended P)
    (flowIds : (F.tasks.map fun t => t.flow.id).Nodup) {t : Task} (mem : t ∈ F.tasks)
    (delivered : F.delivers t = true) :
    deedsFor t.flow.id (F.done P) = F.deeds t ∧ (F.draft t).run.KeptBy P.store := by
  rcases h.over ended mem with ⟨-, hanswer, hdeeds, hkeeps⟩ | ⟨hrefused, -⟩
  · refine ⟨?_, hkeeps⟩
    rw [deedsFor_done flowIds mem, hanswer, hdeeds]
    exact List.append_nil _
  · cases hrefused.symm.trans delivered

/-- A run that does not reach the store leaves nothing but a report. -/
theorem Sound.of_refused {s : σ} {P : State σ} (h : F.Sound s P) (ended : F.Ended P)
    (flowIds : (F.tasks.map fun t => t.flow.id).Nodup) {t : Task} (mem : t ∈ F.tasks)
    (refused : F.delivers t = false) :
    (∃ text, deedsFor t.flow.id (F.done P) =
      [⟨t.flow.id, .notified (.flowFailed t.flow.id F.event.orgId text)⟩]) ∧
    Store.getRun t.runId P.store = .error (.notFound t.runId) := by
  rcases h.over ended mem with ⟨hdelivered, -⟩ | ⟨-, ⟨problem, hanswer⟩, hidle, hunwritten⟩
  · cases hdelivered.symm.trans refused
  · refine ⟨⟨problem.message, ?_⟩, hunwritten⟩
    rw [deedsFor_done flowIds mem, hanswer, hidle]
    rfl

/-- Every deed is done on behalf of a flow that is attempted. -/
theorem Sound.owned_done {s : σ} {P : State σ} (h : F.Sound s P) {deed : Deed}
    (mem : deed ∈ F.done P) : ∃ t ∈ F.tasks, deed.flowId = t.flow.id := by
  rcases List.mem_append.1 mem with hdeed | hdeed
  · exact h.owned deed hdeed
  · obtain ⟨attempted, hattempted, hreport⟩ := List.mem_filterMap.1 hdeed
    obtain ⟨t, ht, rfl⟩ := List.mem_map.1 hattempted
    exact ⟨t, ht, flowId_of_failure? hreport⟩

end Outcome

section Alone

/-- The same event for the flow of a task at the same time, and the others answer as they do there. -/
structure Repeats (F : FanOut) (t : Task) (G : FanOut) : Prop where
  engine : G.engine = F.engine
  event : G.event = F.event
  mode : G.mode = F.mode
  alike : ∀ t' ∈ G.tasks, t'.clock = t.clock ∧
    G.surroundings.AnswersAs t'.runId F.surroundings t.runId

theorem draft_of_repeats {G : FanOut} {t t' : Task} (h : F.Repeats t G) (mem : t' ∈ G.tasks)
    (flow : t'.flow = t.flow) : G.draft t' = (F.draft t).renamed t'.runId := by
  unfold draft
  rw [h.engine, h.event, h.mode, flow, (h.alike t' mem).1]
  exact Engine.draft_renamed ..

theorem delivers_of_repeats {G : FanOut} {t t' : Task} (h : F.Repeats t G) (mem : t' ∈ G.tasks)
    (flow : t'.flow = t.flow) : G.delivers t' = F.delivers t := by
  rw [Bool.eq_iff_iff]
  unfold delivers
  rw [beq_iff_eq, beq_iff_eq, draft_of_repeats h mem flow]
  exact (h.alike t' mem).2.recordRun (F.draft t).run rfl

/-- The others are called alike when the run is handed off. -/
theorem deeds_of_repeats {G : FanOut} {t t' : Task} (h : F.Repeats t G) (mem : t' ∈ G.tasks)
    (flow : t'.flow = t.flow) :
    (G.deeds t').filterMap (fun deed => deed.act.call? t'.runId) =
      (F.deeds t).filterMap fun deed => deed.act.call? t'.runId := by
  unfold deeds
  rw [draft_of_repeats h mem flow, h.engine]
  exact Engine.handOff_renamed F.engine (h.alike t' mem).2 rfl
    (Engine.draft_extends ..).runId _ _

/-- A flow that reacts is attempted where it is alone, and no other flow is. -/
theorem tasks_of_repeats [StockedStore σ] {G : FanOut} {t : Task} {s s' : σ} {flows : List Flow}
    (h : F.Repeats t G) (begun : F.Begins s) (begun' : G.Begins s')
    (stock : StockedStore.Holds s flows) (stock' : StockedStore.Holds s' [t.flow])
    (mem : t ∈ F.tasks) : ∃ t', G.tasks = [t'] ∧ t'.flow = t.flow := by
  have hreacts := (List.mem_filter.1 (flows_eq begun stock ▸ List.mem_map_of_mem mem)).2
  have hflows := flows_eq begun' stock'
  rw [h.event, h.engine, List.filter_cons, if_pos hreacts, List.filter_nil] at hflows
  exact List.map_eq_singleton_iff.1 hflows

variable [LawfulStore σ]

/-- Two tasks have come to the same: the same is told of their runs, and the same has been asked of
the dispatcher and the scheduler. -/
structure Same (F : FanOut) (P : State σ) (t : Task) (G : FanOut) (Q : State σ) (t' : Task) :
    Prop where
  recorded : Store.getRun t'.runId Q.store = .error (.notFound t'.runId) ↔
    Store.getRun t.runId P.store = .error (.notFound t.runId)
  told : ∀ run run', Store.getRun t.runId P.store = .ok run →
    Store.getRun t'.runId Q.store = .ok run' →
    run'.log = run.log ∧ run'.status = run.status ∧ run'.pending = run.pending
  calls : (deedsFor t.flow.id (G.done Q)).filterMap (fun deed => deed.act.call? t'.runId) =
    (deedsFor t.flow.id (F.done P)).filterMap fun deed => deed.act.call? t'.runId

theorem same_of_repeats {G : FanOut} {t t' : Task} {s s' : σ} {P Q : State σ}
    (h : F.Repeats t G) (soundF : F.Sound s P) (soundG : G.Sound s' Q) (endF : F.Ended P)
    (endG : G.Ended Q) (flowIdsF : (F.tasks.map fun t => t.flow.id).Nodup)
    (flowIdsG : (G.tasks.map fun t => t.flow.id).Nodup) (mem : t ∈ F.tasks) (mem' : t' ∈ G.tasks)
    (flow : t'.flow = t.flow) : F.Same P t G Q t' := by
  have hdelivers := delivers_of_repeats h mem' flow
  have hdraft := draft_of_repeats h mem' flow
  cases hfate : F.delivers t with
  | true =>
    obtain ⟨hdeeds, hkept⟩ := soundF.of_delivered endF flowIdsF mem hfate
    obtain ⟨hdeeds', hkept'⟩ := soundG.of_delivered endG flowIdsG mem' (hdelivers.trans hfate)
    refine ⟨iff_of_false hkept'.there hkept.there, fun run run' hrun hrun' => ?_, ?_⟩
    · obtain ⟨hlog, hstatus, hpending⟩ := hkept.told_eq hrun
      obtain ⟨hlog', hstatus', hpending'⟩ := hkept'.told_eq hrun'
      rw [hlog, hstatus, hpending, hlog', hstatus', hpending', hdraft]
      exact ⟨rfl, rfl, rfl⟩
    · rw [← flow, hdeeds', flow, hdeeds]
      exact deeds_of_repeats h mem' flow
  | false =>
    obtain ⟨⟨text, hdeeds⟩, hunwritten⟩ := soundF.of_refused endF flowIdsF mem hfate
    obtain ⟨⟨text', hdeeds'⟩, hunwritten'⟩ :=
      soundG.of_refused endG flowIdsG mem' (hdelivers.trans hfate)
    refine ⟨iff_of_true hunwritten' hunwritten, fun run run' hrun => ?_, ?_⟩
    · cases hunwritten.symm.trans hrun
    · rw [← flow, hdeeds', flow, hdeeds]
      rfl

end Alone

/-- What becomes of the flows in a store when an event is fanned out. -/
structure Isolated [LawfulStore σ] [StockedStore σ] (F : FanOut) (flows : List Flow) (s : σ)
    (P : State σ) : Prop where
  /-- The live flows of the organization with a matching trigger are attempted, and no others. -/
  attempted : F.tasks.map Task.flow = flows.filter fun flow =>
    flow.orgId == F.event.orgId && flow.isLive &&
      F.engine.settings.matcher.anyMatching flow F.event
  /-- The ids are those of the runs that could be recorded, in the order of the flows. -/
  ids : F.ids P = (F.tasks.filter F.delivers).map Task.runId
  recorded : ∀ t ∈ F.tasks, F.delivers t = true →
    deedsFor t.flow.id (F.done P) = F.deeds t ∧ (F.draft t).run.KeptBy P.store
  failed : ∀ t ∈ F.tasks, F.delivers t = false →
    (∃ text, deedsFor t.flow.id (F.done P) =
      [⟨t.flow.id, .notified (.flowFailed t.flow.id F.event.orgId text)⟩]) ∧
    Store.getRun t.runId P.store = .error (.notFound t.runId)
  owned : ∀ deed ∈ F.done P, ∃ t ∈ F.tasks, deed.flowId = t.flow.id
  kept : ∀ id, (∀ t ∈ F.tasks, t.runId ≠ id) → Store.getRun id P.store = Store.getRun id s
  /-- A store with one of the flows alone sees the same of it. -/
  alone : ∀ t ∈ F.tasks, ∀ (G : FanOut) (s' : σ) (Q : State σ), F.Repeats t G →
    StockedStore.Holds s' [t.flow] → G.Begins s' → G.Steps (start s') Q → G.Ended Q →
    ∃ t', G.tasks = [t'] ∧ t'.flow = t.flow ∧ F.Same P t G Q t'

/-- Every interleaving of the tasks of an event comes to an end, and there each flow has come to what
it would have come to alone. Executing the flows in turn is one of the interleavings. -/
theorem isolated_of_ended [LawfulStore σ] [StockedStore σ] {flows : List Flow} {s : σ}
    (stock : StockedStore.Holds s flows) (begun : F.Begins s) :
    (WellFounded fun Q P : State σ => F.Next P Q) ∧
    (∀ P, F.Steps (start s) P → F.Ended P → F.Isolated flows s P) ∧
    ∀ clock named, F.tasks = F.engine.tasks clock (F.tasks.map Task.flow) named →
      ∃ P, F.Steps (start s) P ∧ F.Ended P ∧
        F.engine.fanOut F.surroundings clock F.mode F.event ⟨s, named⟩ =
          F.outcome P (named + F.tasks.length) := by
  have hflowIds := nodup_flowIds begun stock
  refine ⟨wellFounded_next begun.distinct, fun P steps ended => ?_,
    fun clock named inTurn => steps_fanOut begun inTurn⟩
  have hsound := (Sound.start begun).steps begun.distinct hflowIds steps
  refine ⟨flows_eq begun stock, hsound.ids_eq ended, ?_, ?_, fun _ => hsound.owned_done,
    hsound.kept, ?_⟩
  · exact fun t mem => hsound.of_delivered ended hflowIds mem
  · exact fun t mem => hsound.of_refused ended hflowIds mem
  · intro t mem G s' Q repeats stock' begun' steps' ended'
    obtain ⟨t', htasks, hflow⟩ := tasks_of_repeats repeats begun begun' stock stock' mem
    have hflowIds' := nodup_flowIds begun' stock'
    have hsound' := (Sound.start begun').steps begun'.distinct hflowIds' steps'
    have mem' : t' ∈ G.tasks := htasks ▸ List.mem_singleton_self t'
    exact ⟨t', htasks, hflow,
      same_of_repeats repeats hsound hsound' ended ended' hflowIds hflowIds' mem mem' hflow⟩

namespace pair

/-- A flow that enrolls the contact. -/
def flow (id : String) : Flow where
  id := id
  orgId := "acme"
  name := id
  status := .active
  nodes := [.atOrigin "t" (.trigger ⟨.paymentFailed, .none⟩), .atOrigin "a" (.enroll ⟨"dunning", ""⟩)]
  edges := [.plain "ta" "t" "a"]
  deletedAt := none

/-- The first flow breaks down while its run is recorded, and nothing can be dispatched. -/
def surroundings : Surroundings :=
  { Surroundings.calm with
    recordRun := fun run => if run.flowId = "first" then .crashed else .delivered
    dispatch := fun _ => .unavailable "closed" }

def fanOut (flows : List Flow) : FanOut :=
  ⟨.numbered, surroundings, .ofTrigger "acme" .paymentFailed, .live,
    Engine.numbered.tasks .epoch flows 0⟩

def both : List Flow := [flow "first", flow "second"]

def store : MemoryStore := ⟨both, [], by decide⟩

/-- The second flow in a store of its own. -/
def apart : MemoryStore := ⟨[flow "second"], [], by decide⟩

theorem begins_store : (fanOut both).Begins store where
  listed := ⟨both, rfl, rfl⟩
  distinct := by decide
  fresh _ _ := rfl

theorem begins_apart : (fanOut [flow "second"]).Begins apart where
  listed := ⟨[flow "second"], rfl, rfl⟩
  distinct := by decide
  fresh _ _ := rfl

/-- Nobody looks at the ids of runs. -/
theorem repeats : (fanOut both).Repeats ⟨flow "second", "run2", .epoch⟩ (fanOut [flow "second"]) where
  engine := rfl
  event := rfl
  mode := rfl
  alike t' mem := by
    obtain rfl := List.mem_singleton.1 mem
    exact ⟨rfl, fun _ _ => Iff.rfl, fun _ _ => rfl, fun _ => rfl⟩

end pair

/-- The first flow is reported, the id of the other is told, and this one has come to what it comes to
in a store of its own. -/
theorem isolated_of_ended_pair : ∃ P Q : State MemoryStore,
    (pair.fanOut pair.both).Ended P ∧ (pair.fanOut pair.both).ids P = ["run2"] ∧
    (∃ text, deedsFor "first" ((pair.fanOut pair.both).done P) =
      [⟨"first", .notified (.flowFailed "first" "acme" text)⟩]) ∧
    (pair.fanOut [pair.flow "second"]).Ended Q ∧
    (pair.fanOut pair.both).Same P ⟨pair.flow "second", "run2", .epoch⟩
      (pair.fanOut [pair.flow "second"]) Q ⟨pair.flow "second", "run1", .epoch⟩ := by
  obtain ⟨-, hisolated, hinTurn⟩ := isolated_of_ended (σ := MemoryStore) rfl pair.begins_store
  obtain ⟨-, -, hinTurn'⟩ := isolated_of_ended (σ := MemoryStore) rfl pair.begins_apart
  obtain ⟨P, hsteps, hended, -⟩ := hinTurn .epoch 0 rfl
  obtain ⟨Q, hsteps', hended', -⟩ := hinTurn' .epoch 0 rfl
  have hends := hisolated P hsteps hended
  have hmem : (⟨pair.flow "second", "run2", .epoch⟩ : Task) ∈ (pair.fanOut pair.both).tasks :=
    List.mem_cons_of_mem _ List.mem_cons_self
  refine ⟨P, Q, hended, ?_, ?_, hended', ?_⟩
  · rw [hends.ids]
    rfl
  · exact (hends.failed _ List.mem_cons_self rfl).1
  · obtain ⟨t', htasks, -, hsame⟩ :=
      hends.alone _ hmem _ pair.apart Q pair.repeats rfl pair.begins_apart hsteps' hended'
    obtain rfl : _ = t' := (List.cons.inj htasks).1
    exact hsame

end FanOut

end Dunning
