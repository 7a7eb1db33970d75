import Dunning.Proofs.Walk.Chart
import Dunning.Proofs.Walk.Waits
import Mathlib

-- Walks on fixed inputs are evaluated with equations of core that only the whole library holds.

/-!
# The census of a walk

A walk from starts, with the drain behind it, enters what is reached over active edges and
follows each of these edges once. So it is known beforehand how many steps it logs: the
extent of the graph, unless the limit comes first.
-/
namespace Dunning

namespace WalkState

/-- Walk every start, one after the other, and go on behind the deferred waits. -/
def explore (j : Journey) (starts : List String) (s : WalkState) : WalkState :=
  (starts.foldl (fun s id => s.walk j [id]) s).drain j

/-- A walk along two agendas is a walk along the first and then along the second. -/
theorem walk_append (j : Journey) (first second : List String) (s : WalkState) :
    s.walk j (first ++ second) = (s.walk j first).walk j second := by
  have hfirst := walk_eq j first s
  rw [walk_eq j (first ++ second), Journey.course_append, performAll_append, ← hfirst]
  cases hcut : (s.walk j first).truncated with
  | true => rw [performAll_of_truncated j hcut, walk_of_truncated j second hcut]
  | false =>
    have hvisited := congrArg visited (walk_of_open j first hcut).2
    rw [walk_eq j second, hvisited]
    rfl

theorem foldl_walk (j : Journey) (starts : List String) (s : WalkState) :
    starts.foldl (fun s id => s.walk j [id]) s = s.walk j starts := by
  induction starts generalizing s with
  | nil => rw [List.foldl_nil, walk]
  | cons id rest ih => rw [List.foldl_cons, ih, ← walk_append, List.singleton_append]

/-- Walks visit nothing twice. -/
theorem steady_nodup (j : Journey) : Steady j fun s => s.visited.Nodup where
  walk agenda s hs := by
    obtain ⟨repeats, hcourse⟩ := j.exists_accounts_course agenda s.visited
    have hall : (Move.visits (j.course agenda s.visited) ++ s.visited).Nodup :=
      List.nodup_append.2 ⟨hcourse.nodup, hs, fun a ha b hb hab => hcourse.new a ha (hab ▸ hb)⟩
    rcases walk_cases j agenda s with ⟨-, hsame⟩ | ⟨-, hgrown⟩ | ⟨-, made, m, rest, hsplit, hcut, -⟩
    · rwa [hsame]
    · rwa [hgrown]
    · rw [hcut]
      rw [hsplit, Move.visits_append, List.append_assoc] at hall
      exact (List.nodup_append.1 hall).2.1
  remark step s _ hs := by rwa [record_visited]
  retime _ _ _ _ _ hs := hs

open Journey

/-- A fresh state that has walked from starts and been drained has finished an exploration, or was cut
in the course of one. -/
theorem exists_explored {j : Journey} {starts : List String} {s : WalkState}
    (blank : s.log = [] ∧ s.visited = [] ∧ s.pending = [] ∧ s.deferred = [])
    (hopen : s.truncated = false) (inRange : (s.explore j starts).InRange) : ∃ ids moves,
      ((s.explore j starts).truncated = false ∧
        Charted j (j.course starts []) ids moves [] (s.explore j starts) ∧
        ids.Perm (owed (s.suspends j.mode) moves)) ∨
      (Overrun j (j.course starts []) ids moves (s.explore j starts) ∧
        ids.Subperm (owed (s.suspends j.mode) moves)) := by
  unfold explore at inRange ⊢
  rw [foldl_walk] at inRange ⊢
  have hrange := inRange.of_prefix (log_prefix_drain j _)
  cases hwalk : (s.walk j starts).truncated with
  | true =>
    have hnone : Move.visits [] = [] := rfl
    have hstart : j.Explored (j.course starts []) [] ([] ++ j.course starts (Move.visits [])) := .start
    rw [drain_of_truncated j hwalk]
    refine ⟨[], _, .inr ⟨overrun_of_walk hstart ?_ ?_ hopen hwalk, List.nil_subperm⟩⟩
    · rw [blank.1]
      rfl
    · rw [blank.2.1, hnone]
      exact fun _ => Iff.rfl
  | false =>
    have hcharted := charted_start blank hwalk hrange
    cases hsuspends : s.suspends j.mode with
    | true =>
      have hnothing := (deferred_walk_of_suspends j starts hsuspends blank.2.2.2).2
      rw [drain_of_deferred_nil j hnothing]
      exact ⟨[], _, .inl ⟨hwalk, hcharted, List.Perm.refl _⟩⟩
    | false =>
      have hpending := ((steady_passing j).drain
        ((steady_passing j).walk starts s ⟨hsuspends, blank.2.2.1⟩)).2
      obtain ⟨ids, moves, ⟨hdrained, hdeferred, hend⟩ | hcut⟩ := hcharted.drain hwalk inRange
      · have hwaits := hend.waits
        rw [hpending, hdeferred] at hwaits
        exact ⟨ids, moves, .inl ⟨hdrained, hend, by simpa [owed] using hwaits⟩⟩
      · exact ⟨ids, moves, .inr ⟨hcut, hcut.explored.subperm_waitIds⟩⟩

/-- What a walk with the drain behind it comes to. -/
structure Census (j : Journey) (stops : Bool) (starts : List String) (limit : Nat) (s : WalkState) :
    Prop where
  /-- The walk is cut exactly when its extent exceeds the limit. -/
  truncated : s.truncated = true ↔ limit < j.extent stops starts
  /-- A cut walk has one step more than the limit, and says so in it. -/
  cut : s.truncated = true → CutAt limit s.log
  length : s.log.length = min (j.extent stops starts) (limit + 1)
  once : s.visited.Nodup
  sound : ∀ id ∈ s.visited, j.Reached stops starts id
  complete : s.truncated = false → ∀ id, j.Reached stops starts id → id ∈ s.visited
  /-- Nothing is logged at other nodes. -/
  within : s.truncated = false → ∀ step ∈ s.log, j.Reached stops starts step.nodeId
  /-- Each edge is followed once: of all arrivals at a node the first logs the steps of the entry,
  and every other one logs one step. -/
  arrivals : s.truncated = false → ∀ id, j.Reached stops starts id →
    (s.log.map Step.nodeId).count id + 1 = j.entrySteps id + (j.arrivals stops starts).count id

namespace Census

variable {j : Journey} {stops : Bool} {starts ids : List String} {moves : List Move} {limit : Nat}
  {s : WalkState}

/-- The census of a state that has finished its exploration. -/
theorem of_finished (within : WithinLimit limit s) (once : s.visited.Nodup)
    (hopen : s.truncated = false) (charted : Charted j (j.course starts []) ids moves [] s)
    (done : ids.Perm (owed stops moves)) : Census j stops starts limit s := by
  have hnodes : s.log.map Step.nodeId = Move.nodeIds moves := by
    have hmarks := congrArg (List.map Mark.nodeId) charted.log
    rwa [List.map_map, Move.map_nodeId_marks] at hmarks
  have hextent : s.log.length = j.extent stops starts := by
    rw [← charted.explored.length_eq_extent done, ← hnodes, List.length_map]
  have hroom := within.room hopen
  have hvisits := (charted.explored.exists_of_finished done).1
  have hvisited : ∀ id, id ∈ s.visited ↔ j.Reached stops starts id := by
    intro id
    rw [charted.visited, ← mem_reach, ← Finset.mem_val, ← hvisits]
    exact Multiset.mem_coe.symm
  constructor
  · rw [hopen]
    simp only [Bool.false_eq_true, false_iff, not_lt]
    omega
  · exact fun hcut => (within.cut hcut).1
  · omega
  · exact once
  · exact fun id => (hvisited id).1
  · exact fun _ id => (hvisited id).2
  · intro _ step hstep
    have hnode : step.nodeId ∈ Move.nodeIds moves := hnodes ▸ List.mem_map_of_mem hstep
    rw [← hvisited, charted.visited]
    exact charted.explored.mem_visits_of_mem_nodeIds hnode
  · intro _ id hid
    rw [hnodes]
    exact charted.explored.count_nodeIds done (mem_reach.2 hid)

/-- The census of a state that was cut in the course of its exploration. -/
theorem of_overrun (within : WithinLimit limit s) (once : s.visited.Nodup)
    (overrun : Overrun j (j.course starts []) ids moves s) (due : ids.Subperm (owed stops moves)) :
    Census j stops starts limit s := by
  have hextent := overrun.explored.length_le_extent due
  have hexceeded := overrun.exceeded
  have hmax := within.maxSteps
  have hlength := (within.cut overrun.cut).1.length_eq
  have hsound := overrun.explored.reached_of_mem_visits due
  constructor
  · simp only [overrun.cut, true_iff]
    omega
  · exact fun hcut => (within.cut hcut).1
  · omega
  · exact once
  · exact fun id hid => hsound id (overrun.visited id hid)
  all_goals
    intro hopen
    cases overrun.cut.symm.trans hopen

end Census

/-- A fresh state that has walked from every start and been drained has entered what is reached, has
followed each active edge once, and has logged as many steps as the extent of the graph, up to the
limit. -/
theorem census_of_explore (j : Journey) (starts : List String) (runId : String) (limit : Nat)
    (suspendWaits : Bool) (clock now : Instant)
    (inRange : (((start runId limit suspendWaits clock).withNow now).explore j starts).InRange) :
    Census j (j.mode.isLive && suspendWaits) starts limit
      (((start runId limit suspendWaits clock).withNow now).explore j starts) := by
  let fresh := (start runId limit suspendWaits clock).withNow now
  have hexplore : fresh.explore j starts = (fresh.walk j starts).drain j := by
    rw [explore, foldl_walk]
  have hwithin : WithinLimit limit (fresh.explore j starts) := by
    have hfresh : WithinLimit limit fresh := by
      refine ⟨rfl, fun _ => Nat.zero_le _, fun hcut => ?_⟩
      cases hcut
    rw [hexplore]
    exact (steady_withinLimit j limit).drain ((steady_withinLimit j limit).walk starts _ hfresh)
  have honce : (fresh.explore j starts).visited.Nodup := by
    rw [hexplore]
    exact (steady_nodup j).drain ((steady_nodup j).walk starts _ List.nodup_nil)
  obtain ⟨ids, moves, ⟨hopen, hcharted, done⟩ | ⟨hover, due⟩⟩ :=
    exists_explored (s := fresh) ⟨rfl, rfl, rfl, rfl⟩ rfl inRange
  · exact .of_finished hwithin honce hopen hcharted done
  · exact .of_overrun hwithin honce hover due

/-- A trigger that leads to a switch, to a wait and to no node. Of the switch the second branch
matches, and the wait leads back. -/
def roundabout : Flow where
  id := "roundabout"
  orgId := "acme"
  name := "Roundabout"
  status := .active
  nodes := [.atOrigin "t" (.trigger ⟨.invoiceOverdue, .none⟩),
    .atOrigin "s" (.switch [⟨"old", "Old", ⟨"days_overdue", .greater, .string "30"⟩⟩,
      ⟨"vip", "VIP", ⟨"tag", .equals, .string "vip"⟩⟩]),
    .atOrigin "w" (.wait ⟨1, .hours⟩), .atOrigin "a" (.enroll ⟨"dunning", ""⟩)]
  edges := [.plain "ts" "t" "s", .plain "tw" "t" "w", .plain "tx" "t" "x",
    .ofBranch "sw" "s" "old" "w", .ofBranch "sa" "s" "vip" "a", .ofBranch "st" "s" "vip" "t",
    .plain "wt" "w" "t"]
  deletedAt := none

namespace roundabout

def journey : Journey :=
  ⟨.ofFlow roundabout, { Event.ofTrigger "acme" .invoiceOverdue with contactTags := some ["vip"] },
    .dryRun⟩

def explored : WalkState :=
  ((start "run1" 10 true .epoch).withNow .epoch).explore journey ["t"]

theorem marks_explored : explored.log.map Step.mark =
    [⟨"t", some .trigger, .evaluated⟩, ⟨"s", some .switch, .evaluated⟩,
      ⟨"s", some .switch, .skipped⟩, ⟨"s", some .switch, .matched⟩, ⟨"a", some .enroll, .executed⟩,
      ⟨"w", some .wait, .waited⟩, ⟨"t", some .trigger, .skipped⟩] := by
  cbv

theorem inRange_explored : explored.InRange := by
  refine not_outOfRange_of_marks ?_
  rw [marks_explored]
  decide

end roundabout

open roundabout in
/-- All four nodes are entered, the wait leads back to the trigger, and there are seven steps. -/
theorem census_of_explore_roundabout : explored.InRange ∧ Census journey false ["t"] 10 explored ∧
    journey.extent false ["t"] = 7 := by
  have hcensus : Census journey false ["t"] 10 explored :=
    census_of_explore journey ["t"] "run1" 10 true .epoch .epoch inRange_explored
  have hsteps : explored.log.length = 7 := by
    rw [← List.length_map (f := Step.mark), marks_explored]
    rfl
  have hlength := hcensus.length
  exact ⟨inRange_explored, hcensus, by omega⟩

end WalkState

end Dunning
