import Dunning.Proofs.Walk.Earliest
import Dunning.Proofs.Walk.Lockstep
import Dunning.Proofs.Walk.SingleEntry

/-!
# Continuing deferred waits in batches

A drain takes one point after the other, always the earliest. As long as the waits met on
the way end later than those that are due, it may as well take all due points at once,
in order, and then the rest.
-/
namespace Dunning

namespace Move

/-- A wait does not end before it begins. -/
theorem le_of_mem_points {now : Instant} {m : Move} {p : ResumePoint} (h : p ∈ m.points now) :
    now.le p.resumeAt = true := by
  cases m with
  | wait id node w =>
    obtain ⟨t, ht, rfl⟩ := by simpa [points] using h
    exact Instant.le_addHours ht
  | _ => cases h

/-- Only at waits are points left. -/
theorem points_of_not_waits {m : Move} (h : m.waits = false) (now : Instant) :
    m.points now = [] := by
  cases m with
  | wait id node w => cases h
  | _ => rfl

end Move

namespace Journey

/-- The ids that follow a node. -/
def targets (j : Journey) (id : String) : List String := (j.graph.outgoing id).map Edge.target

/-- Whether no due point is late, but for those behind which no further wait is met. -/
def Timely (j : Journey) (time : Instant) : List ResumePoint → List String → Prop
  | [], _ => True
  | p :: rest, visited =>
      (p.resumeAt = time ∨ ∀ m ∈ j.course (j.targets p.nodeId) visited, m.waits = false) ∧
        Timely j time rest (Move.visits (j.course (j.targets p.nodeId) visited) ++ visited)

/-- Points that are all due at the time are timely. -/
theorem timely_of_forall (j : Journey) {time : Instant} {points : List ResumePoint}
    (h : ∀ p ∈ points, p.resumeAt = time) (visited : List String) :
    j.Timely time points visited := by
  induction points generalizing visited with
  | nil => trivial
  | cons p rest ih =>
    exact ⟨.inl (h p List.mem_cons_self), ih (fun q hq => h q (List.mem_cons_of_mem p hq)) _⟩

theorem Timely.congr {g : Graph} {event : Event} {m : Mode} (m' : Mode) {time : Instant}
    {points : List ResumePoint} {visited visited' : List String}
    (same : ∀ id, id ∈ visited ↔ id ∈ visited')
    (h : (⟨g, event, m⟩ : Journey).Timely time points visited) :
    (⟨g, event, m'⟩ : Journey).Timely time points visited' := by
  induction points generalizing visited visited' with
  | nil => trivial
  | cons p rest ih =>
    have hcourse : ∀ agenda, (⟨g, event, m'⟩ : Journey).course agenda visited' =
        (⟨g, event, m⟩ : Journey).course agenda visited := by
      intro agenda
      rw [course_congr _ agenda fun id => (same id).symm, course_mode]
    refine ⟨?_, ?_⟩
    · rw [hcourse]
      exact h.1
    · rw [hcourse]
      refine ih (fun id => ?_) h.2
      rw [List.mem_append, List.mem_append, same id]
      rfl

end Journey

namespace WalkState

/-- Two states that differ in what was deferred before, unless they have been cut. -/
def Framed (frame : List ResumePoint) (s t : WalkState) : Prop :=
  (s.truncated = true ∧ t = s) ∨
    (s.truncated = false ∧ t = { s with deferred := frame ++ s.deferred })

/-- What was deferred before a walk is left alone by it. -/
theorem framed_walk (j : Journey) (agenda : List String) {frame : List ResumePoint}
    {s t : WalkState} (h : Framed frame s t) :
    Framed frame (s.walk j agenda) (t.walk j agenda) := by
  have hvisited : t.visited = s.visited := by
    rcases h with ⟨-, rfl⟩ | ⟨-, rfl⟩ <;> rfl
  rw [walk_eq, walk_eq, hvisited]
  refine performAll_rel j j _ (Framed frame) ?_ ?_ ?_ h
  · intro u v huv
    rcases huv with ⟨-, rfl⟩ | ⟨-, rfl⟩ <;> exact ⟨rfl, rfl, rfl⟩
  · intro u v id hopen huv
    rcases huv with ⟨hcut, -⟩ | ⟨-, rfl⟩
    · cases hopen.symm.trans hcut
    · exact .inl ⟨rfl, rfl⟩
  · intro m _ u v hopen huv
    rcases huv with ⟨hcut, -⟩ | ⟨-, rfl⟩
    · cases hopen.symm.trans hcut
    · refine .inr ⟨hopen, ?_⟩
      have hsteps : ∀ w : Move,
        w.step? j { u with deferred := frame ++ u.deferred } = w.step? j u :=
        fun w => by cases w <;> rfl
      have hstep : Move.step? j { u with deferred := frame ++ u.deferred } = Move.step? j u :=
        funext hsteps
      simp only [grown, hstep, List.append_assoc, suspends]
      rfl

/-- A walk that is not cut visits, logs and defers as its course says. -/
theorem walk_of_open (j : Journey) (agenda : List String) {s : WalkState}
    (h : (s.walk j agenda).truncated = false) :
    s.truncated = false ∧ s.walk j agenda = s.grown j (j.course agenda s.visited) := by
  rcases walk_cases j agenda s with ⟨hs, hsame⟩ | hall | ⟨-, made, m, rest, -, hcut, -⟩
  · rw [hsame] at h
    cases hs.symm.trans h
  · exact hall
  · rw [hcut] at h
    cases h

/-- Continue behind points in order, each from its time, unless the walk is cut. -/
def legs (j : Journey) : List ResumePoint → WalkState → WalkState
  | [], s => s
  | p :: rest, s =>
      if s.truncated then s
      else legs j rest ({ s with now := p.resumeAt }.walkDownstream j p.nodeId)

theorem legs_of_truncated (j : Journey) (points : List ResumePoint) {s : WalkState}
    (h : s.truncated = true) : legs j points s = s := by
  cases points with
  | nil => rfl
  | cons p rest => rw [legs, if_pos h]

theorem load_legs_le (j : Journey) (points : List ResumePoint) (s : WalkState) :
    (legs j points s).load j.graph ≤ s.load j.graph := by
  induction points generalizing s with
  | nil => exact Nat.le_refl _
  | cons p rest ih =>
    rw [legs]
    split
    · exact Nat.le_refl _
    · exact Nat.le_trans (ih _) (load_walk_le j _ _)

theorem drain_of_truncated (j : Journey) {s : WalkState} (h : s.truncated = true) :
    s.drain j = s := by
  rw [drain, if_pos h]

/-- What was cut before a drain is cut behind it. -/
theorem open_of_drain {j : Journey} {s : WalkState} (h : (s.drain j).truncated = false) :
    s.truncated = false := by
  cases hs : s.truncated with
  | false => rfl
  | true => rw [← h, drain_of_truncated j hs, hs]

/-- Nothing is deferred, so there is nothing to continue. -/
theorem drain_of_deferred_nil (j : Journey) {s : WalkState} (h : s.deferred = []) :
    s.drain j = s := by
  rw [drain]
  split
  · rfl
  · split
    · rfl
    · rename_i point others found
      rw [h] at found
      cases found

theorem foldl_walkDownstream_of_truncated (j : Journey) (points : List ResumePoint) {s : WalkState}
    (h : s.truncated = true) : points.foldl (fun s p => s.walkDownstream j p.nodeId) s = s := by
  induction points with
  | nil => rfl
  | cons p rest ih =>
    rw [List.foldl_cons, walkDownstream, walk_of_truncated j _ h]
    exact ih

/-- A walk that suspends at its waits defers nothing. -/
theorem deferred_walk_of_suspends (j : Journey) (agenda : List String) {s : WalkState}
    (suspends : s.suspends j.mode = true) (nothing : s.deferred = []) :
    (s.walk j agenda).suspends j.mode = true ∧ (s.walk j agenda).deferred = [] := by
  rcases walk_cases j agenda s with ⟨-, hsame⟩ | ⟨-, hall⟩ | ⟨-, made, m, rest, -, hcut, -⟩
  · rw [hsame]
    exact ⟨suspends, nothing⟩
  · rw [hall]
    have hsuspends : (s.grown j (j.course agenda s.visited)).suspends j.mode = true := suspends
    refine ⟨hsuspends, ?_⟩
    simp [grown, suspends, nothing]
  · rw [hcut]
    exact ⟨suspends, rfl⟩

theorem deferred_foldl_of_suspends (j : Journey) (points : List ResumePoint) {s : WalkState}
    (suspends : s.suspends j.mode = true) (nothing : s.deferred = []) :
    (points.foldl (fun s p => s.walkDownstream j p.nodeId) s).deferred = [] := by
  induction points generalizing s with
  | nil => exact nothing
  | cons p rest ih =>
    obtain ⟨hsuspends, hnothing⟩ :=
      deferred_walk_of_suspends j (j.targets p.nodeId) suspends nothing
    exact ih hsuspends hnothing

theorem drain_of_earliest (j : Journey) {s : WalkState} (h : s.truncated = false)
    {p : ResumePoint} {others : List ResumePoint}
    (found : takeEarliest s.deferred = some (p, others)) :
    s.drain j =
      drain j ({ s with deferred := others, now := p.resumeAt }.walkDownstream j p.nodeId) := by
  rw [drain, if_neg (by simp [h])]
  split
  · rename_i hnone
    cases hnone.symm.trans found
  · rename_i p' others' found'
    obtain ⟨rfl, rfl⟩ := Prod.mk.inj (Option.some.inj (found'.symm.trans found))
    rfl

open ResumePoint

/-- The points of a list that are due at a time, in order. -/
def dueAt (time : Instant) (points : List ResumePoint) : List ResumePoint :=
  inOrder (points.filter fun p => p.resumeAt.le time)

/-- The points of a list that are not due at a time. -/
def laterThan (time : Instant) (points : List ResumePoint) : List ResumePoint :=
  points.filter fun p => !p.resumeAt.le time

/-- Where points are due, the first of them is the earliest of all, also among further points that
end at the time or later. -/
theorem exists_earliest {time : Instant} {points : List ResumePoint} {p : ResumePoint}
    {rest : List ResumePoint} (due : dueAt time points = p :: rest) : ∃ others,
      (∀ further : List ResumePoint, (∀ q ∈ further, time.le q.resumeAt = true) →
        takeEarliest (points ++ further) = some (p, others ++ further)) ∧
      dueAt time others = rest ∧ laterThan time others = laterThan time points := by
  have hp : p ∈ points ∧ p.resumeAt.le time = true :=
    List.mem_filter.1 (List.mem_mergeSort.1 (due ▸ List.mem_cons_self : p ∈ dueAt time points))
  cases hfound : takeEarliest points with
  | none =>
    rw [takeEarliest_eq_none hfound] at hp
    cases hp.1
  | some found =>
    obtain ⟨q, others⟩ := found
    obtain ⟨before, behind, rfl, rfl, hearliest⟩ := takeEarliest_eq_some hfound
    have hqp : q.resumeAt.le p.resumeAt = true := by
      rcases List.mem_append.1 hp.1 with hmem | hmem
      · exact Instant.le_of_not_le (hearliest.before p hmem)
      · rcases List.mem_cons.1 hmem with rfl | hmem
        · exact Instant.le_refl _
        · exact hearliest.behind p hmem
    have hq : q.resumeAt.le time = true := Instant.le_trans hqp hp.2
    have hdue : Earliest q (before.filter fun r => r.resumeAt.le time)
        (behind.filter fun r => r.resumeAt.le time) :=
      ⟨fun r hr => hearliest.before r (List.mem_filter.1 hr).1,
        fun r hr => hearliest.behind r (List.mem_filter.1 hr).1⟩
    have horder := inOrder_of_earliest hdue
    have hcons : dueAt time (before ++ q :: behind) = q :: dueAt time (before ++ behind) := by
      unfold dueAt
      rw [List.filter_append, List.filter_cons, if_pos hq, horder, List.filter_append]
    obtain ⟨rfl, rfl⟩ := List.cons.inj (hcons.symm.trans due)
    refine ⟨before ++ behind, fun further hfurther => ?_, rfl, ?_⟩
    · rw [List.append_assoc, List.cons_append, List.append_assoc]
      refine takeEarliest_of_earliest ⟨hearliest.before, fun r hr => ?_⟩
      rcases List.mem_append.1 hr with hr | hr
      · exact hearliest.behind r hr
      · exact Instant.le_trans hq (hfurther r hr)
    · unfold laterThan
      rw [List.filter_append, List.filter_append, List.filter_cons_of_neg (by simp [hq])]

/-- A leg behind a point is the same whatever else is deferred: it is cut, or it defers the points
of the waits that it meets behind the others. -/
theorem leg_cases {j : Journey} (passes : j.mode = .dryRun) {s : WalkState}
    (h : s.truncated = false) (p : ResumePoint) : ∃ leg : WalkState,
      (leg.truncated = true ∧ ∀ others,
        { s with deferred := others, now := p.resumeAt }.walkDownstream j p.nodeId = leg) ∨
      (leg.truncated = false ∧
        leg.visited = Move.visits (j.course (j.targets p.nodeId) s.visited) ++ s.visited ∧
        ∀ others, { s with deferred := others, now := p.resumeAt }.walkDownstream j p.nodeId =
          { leg with deferred := others ++
              (j.course (j.targets p.nodeId) s.visited).flatMap (Move.points p.resumeAt) }) := by
  let u : WalkState := { s with deferred := [], now := p.resumeAt }
  have hframed : ∀ others, Framed others (u.walkDownstream j p.nodeId)
      ({ s with deferred := others, now := p.resumeAt }.walkDownstream j p.nodeId) := fun others =>
    framed_walk j _ (.inr ⟨h, by simp [u]⟩)
  refine ⟨u.walkDownstream j p.nodeId, ?_⟩
  cases hcut : (u.walkDownstream j p.nodeId).truncated with
  | true =>
    refine .inl ⟨rfl, fun others => ?_⟩
    rcases hframed others with ⟨-, hsame⟩ | ⟨hopen, -⟩
    · exact hsame
    · cases hcut.symm.trans hopen
  | false =>
    have hgrown : u.walkDownstream j p.nodeId =
      u.grown j (j.course (j.targets p.nodeId) s.visited) :=
      (walk_of_open j _ hcut).2
    have hnew : (u.walkDownstream j p.nodeId).deferred =
        (j.course (j.targets p.nodeId) s.visited).flatMap (Move.points p.resumeAt) := by
      have hsuspends : u.suspends j.mode = false := by rw [passes]; rfl
      rw [hgrown]
      simp [grown, hsuspends, u]
    refine .inr ⟨rfl, congrArg WalkState.visited hgrown, fun others => ?_⟩
    rcases hframed others with ⟨hcut', -⟩ | ⟨-, hsame⟩
    · cases hcut.symm.trans hcut'
    · rw [hsame, hnew, hcut]

/-- A drain takes the points that are due at a time first, one leg after the other, as long as they
are timely. -/
theorem drain_eq_legs {j : Journey} (passes : j.mode = .dryRun) {time : Instant}
    {points further : List ResumePoint} {s : WalkState} (stacked : s.deferred = points ++ further)
    (late : ∀ q ∈ further, time.le q.resumeAt = true)
    (cleared : s.truncated = true → s.deferred = [])
    (timely : j.Timely time (dueAt time points) s.visited) :
    s.drain j = (legs j (dueAt time points)
      { s with deferred := laterThan time points ++ further }).drain j := by
  generalize hdue : dueAt time points = due at timely
  induction due generalizing s points further with
  | nil =>
    have hnone : points.filter (fun p => p.resumeAt.le time) = [] := by
      have hlength := congrArg List.length hdue
      rw [dueAt, inOrder, List.length_mergeSort] at hlength
      exact List.length_eq_zero_iff.1 hlength
    have hall : laterThan time points = points := by
      refine List.filter_eq_self.2 fun p hp => ?_
      simpa using List.filter_eq_nil_iff.1 hnone p hp
    rw [legs, hall, ← stacked]
  | cons p rest ih =>
    obtain ⟨others, htake, hrest, hlater⟩ := exists_earliest hdue
    have hfound := htake further late
    have hopen : s.truncated = false := by
      cases hs : s.truncated with
      | false => rfl
      | true =>
        rw [← stacked, cleared hs] at hfound
        cases hfound
    rw [← stacked] at hfound
    rw [drain_of_earliest j hopen hfound, legs, if_neg (by simp [hopen])]
    have hleg := leg_cases passes hopen p
    obtain ⟨leg, ⟨hcut, hsame⟩ | ⟨hleg, hvisited, hgrown⟩⟩ := hleg
    · rw [hsame, hsame, legs_of_truncated j rest hcut]
    · have hnew : ∀ q ∈ (j.course (j.targets p.nodeId) s.visited).flatMap (Move.points p.resumeAt),
          time.le q.resumeAt = true := by
        intro q hq
        obtain ⟨m, hm, hq⟩ := List.mem_flatMap.1 hq
        rcases timely.1 with htime | hnone
        · exact htime ▸ Move.le_of_mem_points hq
        · rw [Move.points_of_not_waits (hnone m hm)] at hq
          cases hq
      rw [hgrown, hgrown, List.append_assoc, List.append_assoc, ← hlater]
      refine ih rfl ?_ (fun h => by cases hleg.symm.trans h) hrest (hvisited ▸ timely.2)
      intro q hq
      exact (List.mem_append.1 hq).elim (late q) (hnew q)

end WalkState

end Dunning
