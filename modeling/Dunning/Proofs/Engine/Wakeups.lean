import Dunning.Proofs.Engine.Mirror
import Dunning.Proofs.Engine.OrderLaw
import Dunning.Proofs.Walk.Refill

/-!
# One wake-up for each wait

A run lives from its execution through any number of resumptions, between which anything
may happen that leaves the run alone. Every point at which it ever waits is handed to the
scheduler once, by the call that stored it first. A call whose dispatcher breaks down
hands over none of its new points, and none of them is handed over later.
-/
namespace Dunning

open WalkState

/-- The wake-up of a call to the scheduler. -/
def Act.wakeup? : Act → Option (String × ResumePoint)
  | scheduled runId point _ => some (runId, point)
  | _ => none

/-- Whether an act is a call to the dispatcher in which it breaks down. -/
def Act.isBreakdown : Act → Bool
  | dispatched _ .crashed => true
  | _ => false

/-- Whether a scheduler always answers. -/
def Surroundings.Awake (w : Surroundings) : Prop := ∀ runId point, w.schedule runId point ≠ .crashed

@[simp] theorem Surroundings.wakeup?_wake (w : Surroundings) (runId : String) (p : ResumePoint) :
    (w.wake runId p).wakeup? = some (runId, p) := rfl

@[simp] theorem Surroundings.isBreakdown_wake (w : Surroundings) (runId : String) (p : ResumePoint) :
    (w.wake runId p).isBreakdown = false := rfl

namespace Engine

/-- Dispatching wakes nobody, and lasts unless the dispatcher breaks down in one of the calls. -/
theorem dispatchAll_wakeups (w : Surroundings) (requests : List DispatchRequest) :
    (∀ act ∈ (dispatchAll w requests).1, act.wakeup? = none) ∧
      (dispatchAll w requests).2 = !(dispatchAll w requests).1.any Act.isBreakdown := by
  induction requests with
  | nil => simp [dispatchAll]
  | cons request rest ih =>
    cases h : w.dispatch request with
    | crashed => simp [dispatchAll, h, Act.wakeup?, Act.isBreakdown]
    | _ => simpa [dispatchAll, h, DispatchFate.refusal?, Act.wakeup?, Act.isBreakdown] using ih

/-- A hand-off wakes the run at each new point, or at none if the dispatcher breaks down. -/
theorem wakeups_handOff {e : Engine} (scheduling : e.hasScheduler = true) {w : Surroundings}
    (awake : w.Awake) (notice : Notice) (d : Draft) :
    (e.handOff w notice d).filterMap (fun deed => deed.act.wakeup?) =
      if (e.handOff w notice d).any fun deed => deed.act.isBreakdown then []
      else d.wakeups.map (Prod.mk d.run.id) := by
  obtain ⟨hnone, hlasts⟩ := dispatchAll_wakeups w d.requests
  have hsent : (dispatchAll w d.requests).1.filterMap Act.wakeup? = [] :=
    List.filterMap_eq_nil_iff.2 hnone
  have hwoken := (scheduleAll_cases w d.run.id d.wakeups).2 fun p _ => awake d.run.id p
  have hnotice : ∀ notice : Notice, Act.wakeup? (.notified notice) = none ∧
      Act.isBreakdown (.notified notice) = false := fun _ => ⟨rfl, rfl⟩
  unfold handOff sideEffects
  cases hbroken : (dispatchAll w d.requests).1.any Act.isBreakdown with
  | true =>
    rw [hbroken] at hlasts
    simp [hlasts, hsent, hbroken, hnotice, List.filterMap_map, Function.comp_def]
  | false =>
    rw [hbroken] at hlasts
    simp [hlasts, hsent, hbroken, hnotice, hwoken, scheduling, List.filterMap_map,
      Function.comp_def]

end Engine

/-- The new points of a draft stand behind those that the run had, unless these are gone. Each comes
with a wait step. -/
structure Draft.Refills (d : Draft) (log : List Step) (had : List ResumePoint) : Prop where
  grows : log <+: d.run.log
  once : EnteredOnce d.run.log
  pending : ∃ kept, (kept = [] ∨ kept = had) ∧ d.run.pending = kept ++ d.wakeups
  waited : ∀ id, entries .waited id log + (d.wakeups.map ResumePoint.nodeId).count id ≤
    entries .waited id d.run.log

/-- An execution has no points before. -/
theorem Engine.draft_refills (e : Engine) (flow : Flow) (event : Event) (mode : Mode)
    (source : RunSource) (runId : String) (clock : Instant) :
    (e.draft flow event mode source runId clock).Refills [] [] := by
  have hextends := e.draft_extends flow event mode source runId clock
  refine ⟨hextends.grows, hextends.once, ⟨[], .inl rfl, rfl⟩, fun id => ?_⟩
  let start := WalkState.start runId e.settings.maxSteps (e.suspends mode) clock
  let j : Journey := ⟨.ofFlow flow, { event with orgId := flow.orgId }, mode⟩
  have hstart : Dunning.Resumed 0 id start.log start.pending := Nat.zero_le _
  rw [Nat.add_comm]
  exact (steady_resumed j 0 id).walkFlow hstart

/-- A resumption keeps the points that are not due. -/
theorem Continuation.draft_refills {c : Continuation} (once : EnteredOnce c.run.log) {e : Engine}
    (scheduling : e.hasScheduler = true) (flow : Option Flow) (now clock : Instant) :
    (c.draft e flow now clock).Refills c.run.log c.later := by
  have hextends := c.draft_extends once e flow now clock
  have hgrows : ∀ id, entries .waited id c.run.log ≤
      entries .waited id (c.draft e flow now clock).run.log :=
    fun id => hextends.grows.sublist.countP_le
  have hlost : (c.walk e flow now clock).pending = [] →
      (c.draft e flow now clock).Refills c.run.log c.later := by
    intro hnone
    have hpending : (c.draft e flow now clock).run.pending = [] := hnone
    have hwakeups : (c.draft e flow now clock).wakeups = [] := by
      show (c.walk e flow now clock).pending.drop c.later.length = []
      rw [hnone, List.drop_nil]
    exact ⟨hextends.grows, hextends.once, ⟨[], .inl rfl, by rw [hpending, hwakeups]; rfl⟩,
      fun id => by simpa [hwakeups] using hgrows id⟩
  cases flow with
  | none =>
    exact hlost (pending_record_of_nil rfl _)
  | some flow =>
    let j : Journey := ⟨.ofFlow flow, c.run.triggerEvent, .live⟩
    let s := c.start e now clock
    have hsuspends : s.suspends j.mode = true := by simp [s, j, start, WalkState.suspends,
      WalkState.withNow, WalkState.ofLog, WalkState.start, scheduling, Mode.isLive]
    have hwalk : c.walk e (some flow) now clock =
        c.due.foldl (fun s p => s.walkDownstream j p.nodeId) s :=
      drain_of_deferred_nil j (deferred_foldl_of_suspends j c.due hsuspends rfl)
    have hrefilled := (Refilled.self s).foldl_walkDownstream j c.due
    rw [← hwalk] at hrefilled
    obtain ⟨-, hnone⟩ | ⟨new, hpending, hwaited⟩ := hrefilled
    · exact hlost hnone
    · have hnew : (c.draft e (some flow) now clock).wakeups = new := by
        show (c.walk e (some flow) now clock).pending.drop c.later.length = new
        rw [hpending]
        exact List.drop_left
      refine ⟨hextends.grows, hextends.once, ⟨c.later, .inr rfl, ?_⟩, fun id => ?_⟩
      · rw [hnew]
        exact hpending
      · rw [hnew]
        exact hwaited id

namespace Engine

variable {σ : Type} [Store σ]

/-- A resumption with nobody in between writes the continued run and hands it off, or does nothing
and tells the run, if any, as it is. -/
theorem resumeDue_cases (e : Engine) (w : Surroundings) (clock : Instant) (runId : String)
    (now : Instant) (r : Records σ) :
    ((e.resumeDue w clock runId now none r).records = r ∧
      (e.resumeDue w clock runId now none r).deeds = [] ∧
      ∀ run, (e.resumeDue w clock runId now none r).answer = .ok run →
        Store.getRun runId r.store = .ok run) ∨
    ∃ run c flow store, Store.getRun runId r.store = .ok run ∧
      run.continuation now = .ok (some c) ∧
      Store.updateRun (c.draft e flow now clock).run run.log.length r.store = .ok store ∧
      e.resumeDue w clock runId now none r = ⟨.ok (c.draft e flow now clock).run,
        { r with store := store },
        e.handOff w (World.resumedNotice (c.draft e flow now clock)) (c.draft e flow now clock)⟩ := by
  simp only [resumeDue]
  split
  · exact .inl ⟨rfl, rfl, fun run h => by cases h⟩
  · rename_i run hread
    split
    · exact .inl ⟨rfl, rfl, fun run h => by cases h⟩
    · refine .inl ⟨rfl, rfl, fun told h => ?_⟩
      rw [← Except.ok.inj h]
      exact World.getRun_of_findRun hread
    · rename_i c hdue
      split
      · exact .inl ⟨rfl, rfl, fun run h => by cases h⟩
      · rename_i flow hlookup
        simp only [afterRival]
        split
        · exact .inl ⟨rfl, rfl, fun run h => by cases h⟩
        · rename_i store hwrite
          exact .inr ⟨run, c, flow, store, World.getRun_of_findRun hread, hdue,
            World.updateRun_of_update hwrite, rfl⟩

end Engine

/-- An execution or a resumption of a run, as it is seen from outside. -/
structure Episode where
  surroundings : Surroundings
  answer : Except EngineProblem Run
  deeds : List Deed

namespace Episode

/-- An operation with its surroundings. -/
def ofOutcome {σ : Type} (w : Surroundings) (o : Outcome σ Run) : Episode := ⟨w, o.answer, o.deeds⟩

/-- The points at which the run waits after the episode, as far as it tells. -/
def stored (ep : Episode) : List ResumePoint :=
  match ep.answer with
  | .ok run => run.pending
  | .error _ => []

/-- The calls to the scheduler, in order. -/
def wakeups (ep : Episode) : List (String × ResumePoint) :=
  ep.deeds.filterMap fun deed => deed.act.wakeup?

/-- Whether the dispatcher broke down. -/
def brokeDown (ep : Episode) : Bool := ep.deeds.any fun deed => deed.act.isBreakdown

/-- All points at which a run has waited. -/
def points (life : List Episode) : List ResumePoint := life.flatMap stored

/-- The points that an episode stores first. -/
def newPoints (before : List Episode) (ep : Episode) : List ResumePoint :=
  ep.stored.filter fun p => p ∉ points before

theorem points_concat (life : List Episode) (ep : Episode) :
    points (life ++ [ep]) = points life ++ ep.stored := by
  simp [points]

end Episode

/-- The life of a run up to some records. It begins with an execution under an id that is not taken.
Resumptions follow each other, and between them everything may change but the run. -/
inductive Lived {σ : Type} [Store σ] (e : Engine) (runId : String) :
    Records σ → List Episode → Prop where
  | begun (w : Surroundings) (clock : Instant) (flow : Flow) (event : Event) (source : RunSource)
      (r : Records σ) (name : e.runId (r.named + 1) = runId)
      (fresh : Store.getRun runId r.store = .error (.notFound runId)) (run : Run)
      (written : (e.runFlow w clock flow event .live source r).answer = .ok run) :
      Lived e runId (e.runFlow w clock flow event .live source r).records
        [.ofOutcome w (e.runFlow w clock flow event .live source r)]
  | meanwhile {r : Records σ} {life : List Episode} (before : Lived e runId r life) (r' : Records σ)
      (same : Store.getRun runId r'.store = Store.getRun runId r.store) : Lived e runId r' life
  | resumed {r : Records σ} {life : List Episode} (before : Lived e runId r life)
      (w : Surroundings) (clock now : Instant) :
      Lived e runId (e.resumeDue w clock runId now none r).records
        (life ++ [.ofOutcome w (e.resumeDue w clock runId now none r)])

/-- An episode that hands over the points that it stores first, each once, or none of them if the
dispatcher breaks down. -/
def Episode.Hands (runId : String) (before : List Episode) (ep : Episode) : Prop :=
  (newPoints before ep).Nodup ∧
    ep.wakeups = if ep.brokeDown then [] else (newPoints before ep).map (Prod.mk runId)

/-- What holds of every episode after those before it goes on to hold with one more. -/
theorem Episode.forall_concat {P : List Episode → Episode → Prop} {life : List Episode}
    (h : ∀ before ep after, life = before ++ ep :: after → P before ep) {new : Episode}
    (hnew : P life new) :
    ∀ before ep after, life ++ [new] = before ++ ep :: after → P before ep := by
  intro before ep after hsplit
  rcases List.eq_nil_or_concat after with rfl | ⟨between, last, rfl⟩
  · obtain ⟨rfl, hep⟩ := List.append_inj' hsplit rfl
    obtain rfl : new = ep := by simpa using hep
    exact hnew
  · rw [List.concat_eq_append, ← List.cons_append, ← List.append_assoc] at hsplit
    exact h before ep between (List.append_inj_left' hsplit rfl)

/-- What a life has come to: the run was written last as `last`, in whose log there is a wait step
for every point that was ever stored, and each episode has handed over its new points. -/
structure Attended (runId : String) (read : Except StoreProblem Run) (life : List Episode)
    (last : Run) : Prop where
  id : last.id = runId
  told : ∀ run, read = .ok run → { run with triggerEvent := last.triggerEvent } = last
  once : EnteredOnce last.log
  waited : ∀ p ∈ Episode.points life, 0 < entries .waited p.nodeId last.log
  pending : ∀ p ∈ last.pending, p ∈ Episode.points life
  hands : ∀ before ep after, life = before ++ ep :: after → ep.Hands runId before

section
variable {runId : String} {life : List Episode} {ep : Episode} {d : Draft} {log : List Step}
  {had : List ResumePoint}

/-- The points that an episode stores first are those that its draft adds: the others were stored
before, and these belong to nodes at which the run has not waited. -/
theorem Draft.Refills.newPoints_eq (h : d.Refills log had)
    (waited : ∀ p ∈ Episode.points life, 0 < entries .waited p.nodeId log)
    (kept : ∀ p ∈ had, p ∈ Episode.points life) (stored : ep.stored = d.run.pending) :
    ep.newPoints life = d.wakeups := by
  obtain ⟨still, hstill, hpending⟩ := h.pending
  have hold : ∀ p ∈ still, p ∈ Episode.points life := by
    rcases hstill with rfl | rfl
    · simp
    · exact kept
  have hnew : ∀ p ∈ d.wakeups, p ∉ Episode.points life := by
    intro p hp hbefore
    have honce := h.once.once .waited p.nodeId (by decide)
    have hadded := h.waited p.nodeId
    have hpositive := waited p hbefore
    have hcount := List.count_pos_iff.2 (List.mem_map_of_mem (f := ResumePoint.nodeId) hp)
    omega
  rw [Episode.newPoints, stored, hpending, List.filter_append,
    List.filter_eq_nil_iff.2 (by simpa using hold), List.filter_eq_self.2 (by simpa using hnew),
    List.nil_append]

theorem Draft.Refills.nodup_wakeups (h : d.Refills log had) : d.wakeups.Nodup := by
  refine List.Nodup.of_map ResumePoint.nodeId (List.nodup_iff_count_le_one.2 fun id => ?_)
  have honce := h.once.once .waited id (by decide)
  have hadded := h.waited id
  omega

/-- One more episode that writes the run. -/
theorem Attended.concat (refills : d.Refills log had)
    (waited : ∀ p ∈ Episode.points life, 0 < entries .waited p.nodeId log)
    (kept : ∀ p ∈ had, p ∈ Episode.points life)
    (hands : ∀ before ep after, life = before ++ ep :: after → ep.Hands runId before)
    (id : d.run.id = runId) {read : Except StoreProblem Run}
    (told : ∀ run, read = .ok run → { run with triggerEvent := d.run.triggerEvent } = d.run)
    (stored : ep.stored = d.run.pending)
    (wakeups : ep.wakeups = if ep.brokeDown then [] else d.wakeups.map (Prod.mk d.run.id)) :
    Attended runId read (life ++ [ep]) d.run := by
  have hnew := refills.newPoints_eq waited kept stored
  refine ⟨id, told, refills.once, ?_, ?_, ?_⟩
  · intro p hp
    have hadded := refills.waited p.nodeId
    rw [Episode.points_concat, List.mem_append] at hp
    by_cases hbefore : p ∈ Episode.points life
    · have := waited p hbefore
      omega
    · have hwoken : p ∈ d.wakeups := by
        rw [← hnew, Episode.newPoints, List.mem_filter]
        exact ⟨hp.resolve_left hbefore, by simpa using hbefore⟩
      have := List.count_pos_iff.2 (List.mem_map_of_mem (f := ResumePoint.nodeId) hwoken)
      omega
  · intro p hp
    rw [Episode.points_concat, List.mem_append, stored]
    exact .inr hp
  · exact Episode.forall_concat hands ⟨hnew ▸ refills.nodup_wakeups, by rw [wakeups, hnew, id]⟩

end

/-- One more episode that leaves the run alone. -/
theorem Attended.idle {runId : String} {read : Except StoreProblem Run} {life : List Episode}
    {last : Run} (h : Attended runId read life last) {ep : Episode} (silent : ep.deeds = [])
    (same : ∀ run, ep.answer = .ok run → read = .ok run) :
    Attended runId read (life ++ [ep]) last := by
  have hstored : ∀ p ∈ ep.stored, p ∈ Episode.points life := by
    intro p hp
    unfold Episode.stored at hp
    split at hp
    · rename_i run hanswer
      have hpending : run.pending = last.pending := by rw [← h.told run (same run hanswer)]
      exact h.pending p (hpending ▸ hp)
    · cases hp
  have hpoints : ∀ p, p ∈ Episode.points (life ++ [ep]) ↔ p ∈ Episode.points life := by
    intro p
    rw [Episode.points_concat, List.mem_append]
    exact or_iff_left_of_imp (hstored p)
  have hnone : ep.newPoints life = [] := List.filter_eq_nil_iff.2 (by simpa using hstored)
  have hhands : ep.Hands runId life := by
    rw [Episode.Hands, hnone, Episode.wakeups, silent]
    simp
  exact ⟨h.id, h.told, h.once, fun p hp => h.waited p ((hpoints p).1 hp),
    fun p hp => (hpoints p).2 (h.pending p hp), Episode.forall_concat h.hands hhands⟩

variable {σ : Type} [Store σ] [LawfulStore σ] {e : Engine} {runId : String} {r : Records σ}
  {life : List Episode}

/-- Every episode of a life hands over its new points. -/
theorem Lived.attended (h : Lived e runId r life) (scheduling : e.hasScheduler = true)
    (awake : ∀ ep ∈ life, ep.surroundings.Awake) :
    ∃ last, Attended runId (Store.getRun runId r.store) life last := by
  induction h with
  | begun w clock flow event source r name fresh run written =>
    subst name
    obtain ⟨htold, -, hdeeds⟩ := recorded_of_runFlow fresh written
    obtain rfl := run_of_runFlow written
    have hawake := awake _ List.mem_cons_self
    let d := e.draft flow event .live source (e.runId (r.named + 1)) clock
    have hrefills : d.Refills [] [] := e.draft_refills flow event .live source _ clock
    have hlife : ∀ p ∈ Episode.points [], 0 < entries .waited p.nodeId [] := by
      simp [Episode.points]
    have hhands : ∀ before (ep : Episode) after, [] = before ++ ep :: after →
        ep.Hands (e.runId (r.named + 1)) before := by simp
    refine ⟨d.run, Attended.concat hrefills hlife (by simp) hhands rfl (fun told hread => ?_) ?_ ?_⟩
    · obtain ⟨event', -, rfl⟩ := (htold told).1 hread
      rfl
    · simp only [Episode.stored, Episode.ofOutcome, written, d]
    · simp only [Episode.wakeups, Episode.brokeDown, Episode.ofOutcome, hdeeds]
      exact Engine.wakeups_handOff scheduling hawake _ d
  | meanwhile before r' same ih =>
    rw [same]
    exact ih awake
  | resumed before w clock now ih =>
    rename_i r life
    obtain ⟨last, hlast⟩ := ih fun ep hep => awake ep (List.mem_append_left _ hep)
    have hawake := awake _ (List.mem_append_right _ List.mem_cons_self)
    rcases e.resumeDue_cases w clock runId now r with
      ⟨hrecords, hdeeds, hanswer⟩ | ⟨run, c, flow, store, hread, hdue, hwrite, hdone⟩
    · rw [hrecords]
      exact ⟨last, hlast.idle hdeeds hanswer⟩
    · let d := c.draft e flow now clock
      have hlater := Run.later_sublist hdue
      have hcrun : c.run = run := by rw [(Run.continuation_eq_some_iff.1 hdue).2.2]
      have hsame := hlast.told run hread
      have hlog : run.log = last.log := by rw [← hsame]
      have hpending : run.pending = last.pending := by rw [← hsame]
      have hid : run.id = runId := by rw [← hlast.id, ← hsame]
      have hcontinues : d.run.Continues run := hcrun ▸ rfl
      have hname : d.run.id = runId := hcontinues.id_eq.trans hid
      obtain ⟨-, -, hstored, -⟩ := LawfulStore.updateRun_ok d.run run _ r.store store
        (hname.symm ▸ hread) hcontinues hwrite
      have hrefills : d.Refills last.log c.later := by
        rw [← hlog, ← hcrun]
        exact c.draft_refills (hcrun ▸ hlog ▸ hlast.once) scheduling flow now clock
      rw [hdone]
      refine ⟨d.run, Attended.concat hrefills hlast.waited (fun p hp => ?_) hlast.hands hname
        (fun told htold => ?_) rfl (Engine.wakeups_handOff scheduling hawake _ d)⟩
      · exact hlast.pending p (hpending ▸ hlater.subset hp)
      · obtain rfl : d.run = told := Except.ok.inj ((hname ▸ hstored).symm.trans htold)
        rfl

namespace Episode

variable {before : List Episode} {ep : Episode} {p : ResumePoint}

theorem mem_newPoints : p ∈ ep.newPoints before ↔ p ∈ ep.stored ∧ p ∉ points before := by
  simp [newPoints]

/-- Nothing but new points is handed over. -/
theorem Hands.mem_newPoints (h : ep.Hands runId before) (hp : (runId, p) ∈ ep.wakeups) :
    p ∈ ep.newPoints before := by
  rw [h.2] at hp
  split at hp
  · cases hp
  · obtain ⟨q, hq, hpq⟩ := List.mem_map.1 hp
    obtain rfl : q = p := by simpa using hpq
    exact hq

/-- A new point is handed over once. -/
theorem Hands.count_wakeups (h : ep.Hands runId before) (hp : p ∈ ep.newPoints before) :
    ep.wakeups.count (runId, p) = if ep.brokeDown then 0 else 1 := by
  rw [h.2]
  split
  · rfl
  · rw [List.count_map_of_injective _ _ (Prod.mk_right_injective runId)]
    exact List.count_eq_one_of_mem h.1 hp

end Episode

/-- Over a life, a point is handed over by the episode that stores it first, or not at all. -/
theorem count_wakeups_of_stored
    (hands : ∀ before ep after, life = before ++ ep :: after → ep.Hands runId before)
    {p : ResumePoint} (stored : p ∈ Episode.points life) :
    ∃ before ep after, life = before ++ ep :: after ∧ p ∈ ep.newPoints before ∧
      (life.flatMap Episode.wakeups).count (runId, p) = if ep.brokeDown then 0 else 1 := by
  obtain ⟨first, hfirst⟩ : ∃ first, life.find? (fun ep => p ∈ ep.stored) = some first := by
    refine Option.isSome_iff_exists.1 (List.find?_isSome.2 ?_)
    simpa [Episode.points] using stored
  obtain ⟨hstored, before, after, rfl, hbefore⟩ := List.find?_eq_some_iff_append.1 hfirst
  have hnot : p ∉ Episode.points before := by simpa [Episode.points] using hbefore
  have hnew : p ∈ first.newPoints before := Episode.mem_newPoints.2 ⟨by simpa using hstored, hnot⟩
  have hearlier : (before.flatMap Episode.wakeups).count (runId, p) = 0 := by
    refine List.count_eq_zero.2 fun hmem => ?_
    obtain ⟨ep, hep, hwoken⟩ := List.mem_flatMap.1 hmem
    obtain ⟨earlier, between, rfl⟩ := List.append_of_mem hep
    have hhands := hands earlier ep (between ++ first :: after) (by simp)
    have hin := (Episode.mem_newPoints.1 (hhands.mem_newPoints hwoken)).1
    exact hnot (List.mem_flatMap.2 ⟨ep, hep, hin⟩)
  have hlater : (after.flatMap Episode.wakeups).count (runId, p) = 0 := by
    refine List.count_eq_zero.2 fun hmem => ?_
    obtain ⟨ep, hep, hwoken⟩ := List.mem_flatMap.1 hmem
    obtain ⟨between, rest, rfl⟩ := List.append_of_mem hep
    have hhands := hands (before ++ first :: between) ep rest (by simp)
    have hout := (Episode.mem_newPoints.1 (hhands.mem_newPoints hwoken)).2
    exact hout (List.mem_flatMap.2 ⟨first, by simp, by simpa using hstored⟩)
  refine ⟨before, first, after, rfl, hnew, ?_⟩
  rw [List.flatMap_append, List.flatMap_cons, List.count_append, List.count_append, hearlier, hlater,
    (hands before first after rfl).count_wakeups hnew]
  split <;> rfl

/-- How a life wakes its run. Each episode hands over the points that it stores first and no others,
in their order, unless its dispatcher breaks down. So a point that was ever stored is handed over
once, with its time, by the episode that stored it first, if the dispatcher lasted there, and else
never. -/
structure WokenOnce (runId : String) (life : List Episode) : Prop where
  handed : ∀ before ep after, life = before ++ ep :: after → ep.wakeups =
    if ep.brokeDown then [] else (ep.newPoints before).map (Prod.mk runId)
  once : ∀ p ∈ Episode.points life, ∃ before ep after, life = before ++ ep :: after ∧
    p ∈ ep.stored ∧ p ∉ Episode.points before ∧
    (ep.brokeDown = false → (runId, p) ∈ ep.wakeups ∧
      (life.flatMap Episode.wakeups).count (runId, p) = 1) ∧
    (ep.brokeDown = true → (life.flatMap Episode.wakeups).count (runId, p) = 0)

/-- Every point at which a run ever waits is handed to the scheduler once, whatever becomes of its
requests, unless the dispatcher breaks down in the call that stores the point first. -/
theorem wokenOnce_of_lived (h : Lived e runId r life) (scheduling : e.hasScheduler = true)
    (awake : ∀ ep ∈ life, ep.surroundings.Awake) : WokenOnce runId life := by
  obtain ⟨last, hlast⟩ := h.attended scheduling awake
  refine ⟨fun before ep after hsplit => (hlast.hands before ep after hsplit).2, fun p hp => ?_⟩
  obtain ⟨before, ep, after, hsplit, hnew, hcount⟩ := count_wakeups_of_stored hlast.hands hp
  obtain ⟨hstored, hnot⟩ := Episode.mem_newPoints.1 hnew
  refine ⟨before, ep, after, hsplit, hstored, hnot, fun hlasted => ?_, fun hbroke => ?_⟩
  · rw [hlasted] at hcount
    have hhanded := (hlast.hands before ep after hsplit).count_wakeups hnew
    rw [hlasted] at hhanded
    exact ⟨List.count_pos_iff.1 (by simp [hhanded]), hcount⟩
  · rwa [hbroke] at hcount

/-- The dispatcher turns everything away, and still each wait is woken once: two of them by the
execution, and the one behind the first by the resumption that comes to it. -/
theorem wokenOnce_of_lived_relay : ∃ (r : Records MemoryStore) (life : List Episode),
    Lived .numbered "run1" r life ∧ (∀ ep ∈ life, ep.surroundings.Awake) ∧
    life.map Episode.wakeups = [[("run1", ⟨"w1", .hour 1⟩), ("run1", ⟨"w2", .hour 3⟩)],
      [("run1", ⟨"w3", .hour 2⟩)], []] ∧ WokenOnce "run1" life := by
  let w : Surroundings := { Surroundings.calm with dispatch := fun _ => .rejected "quiet hours" }
  have hfirst : Lived .numbered "run1" _ _ :=
    .begun w .epoch relay relay.event .manual relay.stored rfl rfl _ rfl
  have hlife := (hfirst.resumed w (.hour 1) (.hour 1)).resumed w (.hour 3) (.hour 3)
  have hawake : w.Awake := fun _ _ => by simp [w, Surroundings.calm]
  refine ⟨_, _, hlife, ?_, by cbv, wokenOnce_of_lived hlife rfl ?_⟩
  all_goals
    intro ep hep
    simp only [List.cons_append, List.nil_append, List.mem_cons, List.not_mem_nil, or_false] at hep
    rcases hep with rfl | rfl | rfl <;> exact hawake

/-- An enrollment and a wait side by side. -/
def forked : Flow where
  id := "forked"
  orgId := "acme"
  name := "Forked"
  status := .active
  nodes := [.atOrigin "t" (.trigger ⟨.paymentFailed, .none⟩), .atOrigin "a" (.enroll ⟨"dunning", ""⟩),
    .atOrigin "w" (.wait ⟨1, .hours⟩)]
  edges := [.plain "ta" "t" "a", .plain "tw" "t" "w"]
  deletedAt := none

namespace forked

/-- The dispatcher breaks down, and the scheduler does as asked. -/
def surroundings : Surroundings := { Surroundings.calm with dispatch := fun _ => .crashed }

/-- The execution with which the run begins. -/
def executed : Outcome MemoryStore Run :=
  Engine.numbered.runFlow surroundings .epoch forked (.ofTrigger "acme" .paymentFailed) .live .manual
    ⟨MemoryStore.empty.saveFlow forked, 0⟩

end forked

/-- The run waits, and nobody will wake it. -/
theorem stranded_by_breakdown :
    Lived .numbered "run1" forked.executed.records [.ofOutcome forked.surroundings forked.executed] ∧
    forked.surroundings.Awake ∧ Engine.numbered.hasScheduler = true ∧
    Episode.points [.ofOutcome forked.surroundings forked.executed] = [⟨"w", .hour 1⟩] ∧
    [Episode.ofOutcome forked.surroundings forked.executed].flatMap Episode.wakeups = [] :=
  ⟨.begun forked.surroundings .epoch forked _ .manual _ rfl rfl _ rfl,
    fun _ _ => by simp [forked.surroundings, Surroundings.calm], rfl, by cbv, by cbv⟩

end Dunning
