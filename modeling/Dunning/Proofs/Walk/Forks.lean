import Dunning.Proofs.Flow.Graph
import Dunning.Proofs.Walk.Cutoff
import Dunning.Proofs.Walk.Reach

/-!
# Entering a switch

A walk that enters a switch tries its branches in order up to the first that holds, and
logs this in one block of steps. The next step is at the node to which the way of that
branch leads. From then on the switch counts as visited, so that all that is still logged
of it are steps that turn back. The step limit may end the log anywhere, also inside the
block.
-/
namespace Dunning

open WalkState

/-- The steps of entering a switch: one for all branches, one for each branch in front of the first
that holds, and one for that branch. -/
def forkSteps (event : Event) (id : String) (branches : List Branch) (clock : Instant) : List Step :=
  ⟨id, some .switch, .evaluated, "Evaluating " ++ toString branches.length ++ " branch(es)", clock⟩ ::
    ((branches.takeWhile fun b => !b.condition.holds event).map fun b =>
        ⟨id, some .switch, .skipped, "Branch '" ++ b.name ++ "' did not match: " ++
          b.condition.describe event, clock⟩) ++
      ((Branch.first? event branches).map fun b =>
        ⟨id, some .switch, .matched, "Branch '" ++ b.name ++ "' matched: " ++
          b.condition.describe event, clock⟩).toList

theorem nodeId_of_mem_forkSteps {event : Event} {id : String} {branches : List Branch}
    (clock : Instant) : ∀ step ∈ forkSteps event id branches clock, step.nodeId = id := by
  intro step hstep
  rcases List.mem_append.1 hstep with hstep | hstep
  · rcases List.mem_cons.1 hstep with rfl | hstep
    · rfl
    · obtain ⟨b, -, rfl⟩ := List.mem_map.1 hstep
      rfl
  · obtain ⟨b, -, rfl⟩ := Option.map_eq_some_iff.1 (Option.mem_toList.1 hstep)
    rfl

/-- A step that adds nothing to what was told of a node: it belongs to no node, or it turns back. -/
def Step.TurnsBack (step : Step) : Prop :=
  step.nodeKind = none ∨
    step.action = .skipped ∧ step.detail = "Already visited in this run; path stopped"

/-- A log that tells of a node in one block of steps, or not at all. Behind the block comes a step at
the node to which the block leads, if it leads to one, and what is told of the node later turns
back. -/
inductive ToldOnce (id : String) (block : Instant → List Step) (next : Option String) :
    List Step → Prop where
  | never (log : List Step) (untold : id ∉ enteredIds log) : ToldOnce id block next log
  | once (before : List Step) (clock : Instant) (after : List Step)
      (untold : id ∉ enteredIds before)
      (back : ∀ step ∈ after, step.nodeId = id → step.TurnsBack)
      (leads : ∀ target ∈ next, ∃ step rest, after = step :: rest ∧ step.nodeId = target) :
      ToldOnce id block next (before ++ block clock ++ after)

/-- A log that the limit has ended inside the block of a node of which it had not told before. -/
def CutInside (limit : Nat) (id : String) (block : Instant → List Step) (log : List Step) : Prop :=
  ∃ before clock part last, log = before ++ part ++ [last] ∧ id ∉ enteredIds before ∧
    part <+: block clock ∧ part ≠ block clock ∧ (before ++ part).length = limit ∧
    last.IsLimit limit ∧ last.nodeId = id

theorem enteredIds_append (log more : List Step) :
    enteredIds (log ++ more) = enteredIds log ++ enteredIds more := by
  simp [enteredIds]

namespace ToldOnce

variable {id : String} {block : Instant → List Step} {next : Option String} {log : List Step}

/-- Steps that turn back may be added, also the last one of a log. -/
theorem append (h : ToldOnce id block next log) {more : List Step}
    (back : ∀ step ∈ more, step.nodeId = id → step.TurnsBack)
    (untold : id ∉ enteredIds log → id ∉ enteredIds more) :
    ToldOnce id block next (log ++ more) := by
  cases h with
  | never _ hnever =>
    refine .never _ ?_
    rw [enteredIds_append, List.mem_append, not_or]
    exact ⟨hnever, untold hnever⟩
  | once before clock after hbefore hafter hleads =>
    rw [List.append_assoc]
    refine .once before clock (after ++ more) hbefore ?_ fun target htarget => ?_
    · intro step hstep
      exact (List.mem_append.1 hstep).elim (hafter step) (back step)
    · obtain ⟨step, rest, hcons, hid⟩ := hleads target htarget
      exact ⟨step, rest ++ more, by rw [hcons, List.cons_append], hid⟩

/-- A step that belongs to no node tells of none. -/
theorem concat_remark (h : ToldOnce id block next log) {step : Step}
    (kindless : step.nodeKind = none) : ToldOnce id block next (log ++ [step]) := by
  refine h.append (fun other hother _ => ?_) fun _ => by simp [enteredIds, kindless]
  rw [List.mem_singleton.1 hother]
  exact .inl kindless

/-- What was logged before does not matter as long as it does not tell of the node. -/
theorem behind (h : ToldOnce id block next log) {front : List Step}
    (untold : id ∉ enteredIds front) : ToldOnce id block next (front ++ log) := by
  cases h with
  | never _ hnever =>
    refine .never _ ?_
    rw [enteredIds_append, List.mem_append, not_or]
    exact ⟨untold, hnever⟩
  | once before clock after hbefore hafter hleads =>
    rw [← List.append_assoc, ← List.append_assoc]
    refine .once (front ++ before) clock after ?_ hafter hleads
    rw [enteredIds_append, List.mem_append, not_or]
    exact ⟨untold, hbefore⟩

/-- A log that does not tell of the node may be cut anywhere. -/
theorem never_take {front : List Step} (untold : id ∉ enteredIds front) (k : Nat) {last : Step}
    (kindless : last.nodeKind = none) : ToldOnce id block next (front.take k ++ [last]) := by
  have hlast : enteredIds [last] = [] := by simp [enteredIds, kindless]
  refine .never _ ?_
  rw [enteredIds_append, hlast, List.append_nil]
  exact fun hmem => untold ((((List.take_sublist k front).filter _).map _).subset hmem)

/-- Behind the block a log may be cut anywhere, if the last step is at the node of the next one. -/
theorem once_take {before after : List Step} {clock : Instant} (untold : id ∉ enteredIds before)
    (back : ∀ step ∈ after, step.nodeId = id → step.TurnsBack)
    (leads : ∀ target ∈ next, ∃ step rest, after = step :: rest ∧ step.nodeId = target) {k : Nat}
    {unlogged last : Step} (unlogged_at : after[k]? = some unlogged)
    (kindless : last.nodeKind = none) (same : last.nodeId = unlogged.nodeId) :
    ToldOnce id block next (before ++ block clock ++ (after.take k ++ [last])) := by
  refine .once before clock _ untold (fun step hstep hid => ?_) fun target htarget => ?_
  · rcases List.mem_append.1 hstep with hstep | hstep
    · exact back step (List.mem_of_mem_take hstep) hid
    · rw [List.mem_singleton.1 hstep]
      exact .inl kindless
  · obtain ⟨step, rest, rfl, hid⟩ := leads target htarget
    cases k with
    | zero =>
      obtain rfl : step = unlogged := by simpa using unlogged_at
      exact ⟨last, [], rfl, same.trans hid⟩
    | succ k => exact ⟨step, rest.take k ++ [last], rfl, hid⟩

/-- However a log is cut, it tells of the node once, or it was cut inside the block. -/
theorem cut (h : ToldOnce id block next log)
    (here : ∀ clock, ∀ step ∈ block clock, step.nodeId = id) {limit : Nat} {unlogged last : Step}
    (unlogged_at : log[limit]? = some unlogged) (isLimit : last.IsLimit limit)
    (same : last.nodeId = unlogged.nodeId) :
    ToldOnce id block next (log.take limit ++ [last]) ∨
      CutInside limit id block (log.take limit ++ [last]) := by
  cases h with
  | never _ hnever => exact .inl (never_take hnever limit isLimit.nodeKind)
  | once before clock after hbefore hafter hleads =>
    rw [List.append_assoc] at unlogged_at ⊢
    by_cases hfront : limit ≤ before.length
    · rw [List.take_append_of_le_length hfront]
      exact .inl (never_take hbefore limit isLimit.nodeKind)
    have htake : before.take limit = before := List.take_of_length_le (by omega)
    rw [List.getElem?_append_right (by omega)] at unlogged_at
    rw [List.take_append, htake]
    by_cases hinside : limit - before.length < (block clock).length
    · rw [List.getElem?_append_left hinside] at unlogged_at
      rw [List.take_append_of_le_length hinside.le]
      refine .inr ⟨before, clock, (block clock).take (limit - before.length), last, rfl, hbefore,
        List.take_prefix _ _, fun hall => ?_, ?_, isLimit, ?_⟩
      · have hlength := congrArg List.length hall
        rw [List.length_take] at hlength
        omega
      · rw [List.length_append, List.length_take]
        omega
      · rw [same]
        exact here clock unlogged (List.mem_of_getElem? unlogged_at)
    · rw [List.getElem?_append_right (by omega)] at unlogged_at
      rw [List.take_append, List.take_of_length_le (by omega : (block clock).length ≤ _),
        ← List.append_assoc, List.append_assoc]
      exact .inl (once_take hbefore hafter hleads unlogged_at isLimit.nodeKind same)

end ToldOnce

namespace Journey

variable (j : Journey) {id : String} {node : Node} {branches : List Branch}

theorem steps_branchMoves (s : WalkState) (kind : node.kind = .switch) :
    (j.branchMoves id node branches).filterMap (Move.step? j s) =
      ((branches.takeWhile fun b => !b.condition.holds j.event).map fun b =>
        ⟨id, some .switch, .skipped, "Branch '" ++ b.name ++ "' did not match: " ++
          b.condition.describe j.event, s.clock⟩) ++
      ((Branch.first? j.event branches).map fun b =>
        ⟨id, some .switch, .matched, "Branch '" ++ b.name ++ "' matched: " ++
          b.condition.describe j.event, s.clock⟩).toList := by
  unfold Branch.first?
  induction branches with
  | nil => rfl
  | cons b rest ih =>
    cases h : b.condition.holds j.event with
    | true => simp [branchMoves, h, Move.step?, nodeStep, step, kind]
    | false => simp [branchMoves, h, Move.step?, nodeStep, step, kind, ih]

/-- Entering a switch logs its block. -/
theorem steps_entryMoves (s : WalkState) (body : node.body = .switch branches) :
    (j.entryMoves id node).filterMap (Move.step? j s) = forkSteps j.event id branches s.clock := by
  have hkind : node.kind = .switch := by rw [Node.kind, body, NodeBody.kind]
  simp only [entryMoves, body]
  rw [Move.filterMap_step?_cons, j.steps_branchMoves s hkind]
  simp [forkSteps, Move.step?, nodeStep, step, hkind]

theorem nodeId_of_mem_steps (s : WalkState) {step : Step}
    (hstep : step ∈ (j.entryMoves id node).filterMap (Move.step? j s)) : step.nodeId = id := by
  obtain ⟨m, hm, hlogged⟩ := List.mem_filterMap.1 hstep
  rw [Move.nodeId_of_step? hlogged, (j.entryMoves_spec id node).2 m hm]

/-- The steps of entering a node tell of no other node. -/
theorem not_mem_enteredIds_steps (s : WalkState) {other : String} (ne : other ≠ id) :
    id ∉ enteredIds ((j.entryMoves other node).filterMap (Move.step? j s)) := by
  intro hmem
  obtain ⟨step, hstep, hid⟩ := List.mem_map.1 hmem
  exact ne ((j.nodeId_of_mem_steps s (List.mem_filter.1 hstep).1).symm.trans hid)

/-- A walk goes on from a switch along its way. -/
theorem onward_switch (id : String) (body : node.body = .switch branches) :
    j.onward id node = (j.graph.way j.event id branches).toList.map Edge.target := by
  simp only [onward, body]
  exact j.branchTargets_eq id branches

/-- A course that comes to a node first logs a step there. -/
theorem exists_first_step (s : WalkState) (found : j.graph.node? id = some node)
    (rest visited : List String) : ∃ step more,
      (j.course (id :: rest) visited).filterMap (Move.step? j s) = step :: more ∧
        step.nodeId = id := by
  by_cases hid : id ∈ visited
  · rw [course_of_visited found rest hid]
    exact ⟨_, _, rfl, rfl⟩
  · obtain ⟨m, others, hentry, hlogs, hnode⟩ := j.exists_entryMoves_eq id node
    obtain ⟨step, hstep⟩ := Option.isSome_iff_exists.1 ((Move.isSome_step? j s m).trans hlogs)
    rw [course_of_new found rest hid, hentry, List.cons_append, List.filterMap_cons_none rfl,
      List.filterMap_cons_some hstep]
    exact ⟨step, _, rfl, (Move.nodeId_of_step? hstep).trans hnode⟩

/-- Of a node that was visited before a walk logs nothing but that it turns back. -/
theorem turnsBack_of_visited (s : WalkState) (agenda : List String) {visited : List String}
    (old : id ∈ visited) : ∀ step ∈ (j.course agenda visited).filterMap (Move.step? j s),
      step.nodeId = id → step.TurnsBack := by
  fun_induction course j agenda visited with
  | case1 visited => simp
  | case2 visited other rest missing ih => exact ih old
  | case3 visited other rest node found _ ih =>
    intro step hstep hid
    rw [Move.filterMap_step?_cons] at hstep
    rcases List.mem_append.1 hstep with hstep | hstep
    · obtain rfl := List.mem_singleton.1 hstep
      exact .inr ⟨rfl, rfl⟩
    · exact ih old step hstep hid
  | case4 visited other rest node found new ih =>
    intro step hstep hid
    rw [List.filterMap_cons_none rfl, List.filterMap_append] at hstep
    rcases List.mem_append.1 hstep with hstep | hstep
    · have hother := (j.nodeId_of_mem_steps s hstep).symm.trans hid
      exact absurd (hother ▸ old) new
    · exact ih (List.mem_cons_of_mem _ old) step hstep hid

/-- A course enters a switch that was not visited before at most once, with its block. -/
theorem toldOnce_course (s : WalkState) (found : j.graph.node? id = some node)
    (body : node.body = .switch branches) (agenda : List String) {visited : List String}
    (new : id ∉ visited) :
    ToldOnce id (forkSteps j.event id branches) (j.graph.forkTarget j.event id branches)
      ((j.course agenda visited).filterMap (Move.step? j s)) := by
  fun_induction course j agenda visited with
  | case1 visited => exact .never _ (by simp [enteredIds])
  | case2 visited other rest missing ih => exact ih new
  | case3 visited other rest other_node other_found old ih =>
    have hother : other ≠ id := fun h => new (h ▸ old)
    rw [Move.filterMap_step?_cons]
    refine (ih new).behind ?_
    simp [enteredIds, revisit, Move.step?, nodeStep, step, Ne.symm hother]
  | case4 visited other rest other_node other_found fresh ih =>
    rw [List.filterMap_cons_none rfl, List.filterMap_append]
    by_cases hother : other = id
    · -- The switch is entered here. The course goes on at its target and visits it no more.
      subst hother
      obtain rfl : node = other_node := Option.some.inj (found.symm.trans other_found)
      rw [j.steps_entryMoves s body]
      refine .once [] s.clock _ (by simp [enteredIds])
        (j.turnsBack_of_visited s _ List.mem_cons_self) fun target htarget => ?_
      obtain ⟨hway, hsome⟩ := Option.filter_eq_some_iff.1 htarget
      obtain ⟨next, hnext⟩ := Option.isSome_iff_exists.1 hsome
      obtain ⟨edge, hedge, rfl⟩ := Option.map_eq_some_iff.1 hway
      rw [j.onward_switch other body, hedge, Option.toList_some, List.map_singleton,
        List.singleton_append]
      exact j.exists_first_step s hnext rest (other :: visited)
    · exact (ih (by simp [Ne.symm hother, new])).behind (j.not_mem_enteredIds_steps s hother)

end Journey

namespace WalkState

/-- A state that has kept to its limit and tells of a switch once, as the switch goes on for an
event, or was cut inside its block. This is the event of the journey as long as the switch has not
been visited. -/
structure ForksOnce (j : Journey) (limit : Nat) (id : String) (branches : List Branch)
    (seen : Event) (s : WalkState) : Prop where
  within : WithinLimit limit s
  accounted : Accounted s
  aware : id ∈ s.visited ∨ seen = j.event
  told : ToldOnce id (forkSteps seen id branches) (j.graph.forkTarget seen id branches) s.log ∨
    s.truncated = true ∧ CutInside limit id (forkSteps seen id branches) s.log

variable {j : Journey} {limit : Nat} {id : String} {node : Node} {branches : List Branch}
  {seen : Event}

/-- What a walk adds to a log tells of a switch once. -/
theorem toldOnce_grown (found : j.graph.node? id = some node) (body : node.body = .switch branches)
    (agenda : List String) {s : WalkState} (accounted : ∀ id, id ∈ s.visited ↔ id ∈ enteredIds s.log)
    (aware : id ∈ s.visited ∨ seen = j.event)
    (told : ToldOnce id (forkSteps seen id branches) (j.graph.forkTarget seen id branches) s.log) :
    ToldOnce id (forkSteps seen id branches) (j.graph.forkTarget seen id branches)
      (s.grown j (j.course agenda s.visited)).log := by
  by_cases hvisited : id ∈ s.visited
  · -- The log told of the switch before, and only that it turns back is added.
    exact told.append (j.turnsBack_of_visited s agenda hvisited)
      fun hnever => absurd ((accounted id).1 hvisited) hnever
  · obtain rfl := aware.resolve_left hvisited
    exact (j.toldOnce_course s found body agenda hvisited).behind (mt (accounted id).2 hvisited)

/-- A walk enters a switch once. -/
theorem steady_forksOnce (found : j.graph.node? id = some node)
    (body : node.body = .switch branches) : Steady j (ForksOnce j limit id branches seen) where
  walk agenda s h := by
    refine ⟨(steady_withinLimit j limit).walk agenda s h.within,
      (steady_accounted j).walk agenda s h.accounted,
      h.aware.imp_left fun hvisited => visited_subset_walk j agenda s hvisited, ?_⟩
    cases hopen : s.truncated with
    | true =>
      rw [walk_of_truncated j agenda hopen]
      exact h.told
    | false =>
      have htold := h.told.resolve_right fun hcut => by cases hopen.symm.trans hcut.1
      have hfull := toldOnce_grown found body agenda (h.accounted hopen) h.aware htold
      have hmax := h.within.maxSteps
      rcases walk_cutShort j agenda hopen (hmax ▸ h.within.room hopen) with hall | hcut
      · rw [hall]
        exact .inl hfull
      · obtain ⟨next, last, hnext, hlog, hlimit, hsame⟩ := hcut.log
        rw [hmax] at hnext hlog hlimit
        rw [hlog]
        exact (hfull.cut (fun clock => nodeId_of_mem_forkSteps clock) hnext hlimit hsame).imp_right
          fun hinside => ⟨hcut.truncated, hinside⟩
  remark step s hstep h := by
    refine ⟨(steady_withinLimit j limit).remark step s hstep h.within,
      (steady_accounted j).remark step s hstep h.accounted, by rw [record_visited]; exact h.aware, ?_⟩
    cases hopen : s.truncated with
    | true =>
      rw [record_of_truncated hopen]
      exact h.told
    | false =>
      have htold := h.told.resolve_right fun hcut => by cases hopen.symm.trans hcut.1
      rcases record_cases s step with hsame | hcut | hmore
      · rw [hsame]
        exact .inl htold
      · rw [hcut]
        exact .inl (htold.concat_remark rfl)
      · rw [hmore]
        exact .inl (htold.concat_remark hstep.1)
  retime pending deferred now s hpending h :=
    ⟨(steady_withinLimit j limit).retime pending deferred now s hpending h.within, h.accounted,
      h.aware, h.told⟩

end WalkState

end Dunning
