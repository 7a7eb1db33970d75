import Dunning.Proofs.Walk.Survey
import Dunning.Proofs.Walk.Tour
import Mathlib.Algebra.BigOperators.Group.Finset.Piecewise
import Mathlib.Algebra.Order.Group.Nat

/-!
# Explorations

A run explores the graph from its starts and then from behind waits that it has met, each
at most once. It is finished when no wait is left. A finished exploration has visited what
is reached and has arrived wherever an active edge leads, in whichever order it took the
waits; one that is not finished has done a part of that.
-/
namespace Dunning

namespace Journey

/-- The first moves and those from behind waits, the wait that was taken last first. -/
inductive Explored (j : Journey) (first : List Move) : List String → List Move → Prop where
  | start : Explored j first [] first
  | next {ids : List String} {moves : List Move} {id : String} (before : Explored j first ids moves)
      (met : (id :: ids).Subperm (moves.flatMap Move.waitIds)) :
      Explored j first (id :: ids) (moves ++ j.course (j.targets id) (Move.visits moves))

/-- The waits that moves leave to be taken. -/
def owed (stops : Bool) (moves : List Move) : List String :=
  if stops then [] else moves.flatMap Move.waitIds

/-- The first ids from behind a wait. -/
def behind (j : Journey) (id : String) : Multiset String := (j.present (j.targets id) : Multiset _)

variable {j : Journey} {stops : Bool} {starts ids visited : List String} {first moves : List Move}
  {arrived repeats : Multiset String}

/-- What a graph says of moves, counted over the books. -/
theorem Accounts.flatMap {β : Type} (h : j.Accounts arrived moves visited repeats)
    (f : Move → List β) : (moves.flatMap f : Multiset β) =
      (Move.visits moves : Multiset String).bind (fun id => ((j.entering id).flatMap f : Multiset β)) +
        repeats.bind fun id => ((j.returning id).flatMap f : Multiset β) := by
  rw [← Multiset.coe_bind, h.made, Multiset.add_bind, Multiset.bind_assoc, Multiset.bind_assoc]
  simp only [Multiset.coe_bind]

theorem waitIds_entering (j : Journey) (id : String) :
    (j.entering id).flatMap Move.waitIds = if j.isWait id then [id] else [] := by
  have hbranches : ∀ node branches,
      (j.branchMoves id node branches).flatMap Move.waitIds = [] := by
    intro node branches
    induction branches with
    | nil => rfl
    | cons b rest ih =>
      rw [branchMoves]
      split
      · rfl
      · exact ih
  unfold entering isWait
  cases j.graph.node? id with
  | none => rfl
  | some node =>
    cases h : node.body with
    | «switch» branches => simpa [entryMoves, h, Move.waitIds] using hbranches node branches
    | _ => simp [entryMoves, h, Move.waitIds]

theorem waitIds_returning (j : Journey) (id : String) :
    (j.returning id).flatMap Move.waitIds = [] := by
  unfold returning
  cases j.graph.node? id <;> rfl

/-- The waits that moves come to are those among the visited nodes. -/
theorem Accounts.waitIds (h : j.Accounts arrived moves visited repeats) :
    (moves.flatMap Move.waitIds : Multiset String) =
      (Move.visits moves : Multiset String).filter fun id => j.isWait id = true := by
  have hfilter : ∀ ids : List String, (ids.flatMap fun id => if j.isWait id then [id] else []) =
      ids.filter fun id => j.isWait id := by
    intro ids
    induction ids with
    | nil => rfl
    | cons id rest ih => by_cases hid : j.isWait id = true <;> simp [hid, ih]
  rw [h.flatMap Move.waitIds]
  simp only [waitIds_entering, waitIds_returning, Multiset.coe_bind, hfilter, Multiset.coe_nil,
    Multiset.bind_zero, add_zero, Multiset.filter_coe, Bool.decide_eq_true]

/-- The edges that the visited nodes of moves make active, with those behind the owed waits told
apart. -/
theorem Accounts.ways (h : j.Accounts arrived moves visited repeats) :
    (Move.visits moves : Multiset String).bind (fun id => (j.ways stops id : Multiset String)) =
      (Move.visits moves : Multiset String).bind (fun id => (j.ways true id : Multiset String)) +
        (owed stops moves : Multiset String).bind j.behind := by
  cases stops with
  | true => simp [owed]
  | false =>
    have hsplit : ∀ ids : Multiset String,
        ids.bind (fun id => (j.ways false id : Multiset String)) =
          ids.bind (fun id => (j.ways true id : Multiset String)) +
            (ids.filter fun id => j.isWait id = true).bind j.behind := by
      intro ids
      induction ids using Multiset.induction with
      | empty => rfl
      | cons id rest ih =>
        rw [Multiset.cons_bind, Multiset.cons_bind, ih, ways_passing]
        by_cases hid : j.isWait id = true
        · rw [if_pos hid, Multiset.filter_cons_of_pos (p := fun id => j.isWait id = true) _ hid,
            Multiset.cons_bind, ← Multiset.coe_add, behind]
          abel
        · rw [if_neg hid, Multiset.filter_cons_of_neg (p := fun id => j.isWait id = true) _ hid,
            List.append_nil]
          abel
    rw [hsplit, ← h.waitIds]
    rfl

namespace Explored

/-- After the first moves, explorations keep their books. -/
theorem exists_rest (h : j.Explored first ids moves) : ∃ rest repeats, moves = first ++ rest ∧
    j.Accounts ((ids : Multiset String).bind j.behind) rest (Move.visits first) repeats := by
  induction h with
  | start => exact ⟨[], 0, (List.append_nil first).symm, .nil j _⟩
  | @next ids moves id before met ih =>
    obtain ⟨rest, repeats, rfl, haccounts⟩ := ih
    obtain ⟨more, hcourse⟩ :=
      j.exists_accounts_course (j.targets id) (Move.visits (first ++ rest))
    refine ⟨_, repeats + more, List.append_assoc _ _ _, ?_⟩
    rw [Move.visits_append] at hcourse
    have hcons : ((id :: ids : List String) : Multiset String).bind j.behind =
        (ids : Multiset String).bind j.behind + j.behind id := by
      rw [← Multiset.cons_coe, Multiset.cons_bind, add_comm]
    rw [hcons, Move.visits_append]
    exact haccounts.append hcourse

/-- Explorations from starts keep their books. -/
theorem exists_accounts (h : j.Explored (j.course starts []) ids moves) : ∃ repeats,
    j.Accounts (j.present starts + (ids : Multiset String).bind j.behind) moves [] repeats := by
  obtain ⟨repeats, hfirst⟩ := j.exists_accounts_course starts []
  obtain ⟨rest, more, rfl, hrest⟩ := h.exists_rest
  exact ⟨repeats + more, hfirst.append (by rwa [List.append_nil])⟩

/-- Waits are taken after they have been met. -/
theorem subperm_waitIds (h : j.Explored first ids moves) :
    ids.Subperm (moves.flatMap Move.waitIds) := by
  cases h with
  | start => exact List.nil_subperm
  | next before met =>
    rw [List.flatMap_append]
    exact met.trans (List.sublist_append_left _ _).subperm

/-- Explorations stay within what is reached. -/
theorem reached_of_mem_visits (h : j.Explored (j.course starts []) ids moves)
    (due : ids.Subperm (owed stops moves)) :
    ∀ id ∈ Move.visits moves, j.Reached stops starts id := by
  have hclosed : ∀ visited : List String, ∀ id ∉ visited, j.Reached stops starts id →
      ∀ next ∈ j.ways true id, j.Reached stops starts next := by
    intro _ id _ hid next hnext
    refine .follow hid ?_
    cases stops with
    | true => exact hnext
    | false =>
      rw [ways_passing]
      exact List.mem_append_left _ hnext
  induction h with
  | start => exact j.mem_of_mem_visits _ starts [] (hclosed []) fun id hid => .start hid
  | @next ids moves id before met ih =>
    -- Where waits stop the run none is owed, so that none can have been taken.
    have hstops : stops = false := by
      cases stops with
      | false => rfl
      | true => exact absurd due.length_le (by simp [owed])
    subst hstops
    have hsound := ih before.subperm_waitIds
    obtain ⟨repeats, haccounts⟩ := before.exists_accounts
    have hid : id ∈ Move.visits moves ∧ j.isWait id = true := by
      have hmet : id ∈ (moves.flatMap Move.waitIds : Multiset String) :=
        met.subset List.mem_cons_self
      rw [haccounts.waitIds] at hmet
      exact Multiset.mem_filter.1 hmet
    rw [Move.visits_append]
    intro other hother
    rcases List.mem_append.1 hother with hother | hother
    · refine j.mem_of_mem_visits _ _ _ (hclosed _) (fun next hnext => ?_) other hother
      refine .follow (hsound id hid.1) ?_
      rw [ways_passing, if_pos hid.2]
      exact List.mem_append_right _ hnext
    · exact hsound other hother

/-- What the visited nodes lead to has arrived, but for what stands behind waits not yet taken. -/
theorem exists_balance (h : j.Explored (j.course starts []) ids moves)
    (due : ids.Subperm (owed stops moves)) :
    ∃ repeats left, j.Accounts (j.present starts + (ids : Multiset String).bind j.behind) moves []
        repeats ∧
      (owed stops moves : Multiset String) = ids + left ∧
      (j.present starts : Multiset String) + (Move.visits moves : Multiset String).bind (fun id =>
        (j.ways stops id : Multiset String)) =
        (Move.visits moves : Multiset String) + repeats + left.bind j.behind := by
  obtain ⟨repeats, haccounts⟩ := h.exists_accounts
  obtain ⟨left, hleft⟩ := Multiset.le_iff_exists_add.1 (Multiset.coe_le.2 due)
  refine ⟨repeats, left, haccounts, hleft, ?_⟩
  rw [haccounts.ways, hleft, Multiset.add_bind, ← haccounts.arrivals]
  abel

/-- A finished exploration has visited what is reached, and has arrived wherever an active edge
leads. -/
theorem exists_of_finished (h : j.Explored (j.course starts []) ids moves)
    (done : ids.Perm (owed stops moves)) :
    (Move.visits moves : Multiset String) = (j.reach stops starts).val ∧ ∃ repeats,
      j.Accounts (j.present starts + (ids : Multiset String).bind j.behind) moves [] repeats ∧
      (j.reach stops starts).val + repeats = j.arrivals stops starts := by
  obtain ⟨repeats, left, haccounts, hleft, hbalance⟩ := h.exists_balance done.subperm
  -- No wait is left, so that what the visited nodes lead to has all arrived.
  have hnone : left = 0 := by
    rw [← Multiset.coe_eq_coe.2 done] at hleft
    exact (add_eq_left.1 hleft.symm)
  rw [hnone, Multiset.zero_bind, add_zero] at hbalance
  have harrived : ∀ id, id ∈ (j.present starts : Multiset String) +
      (Move.visits moves : Multiset String).bind (fun id => (j.ways stops id : Multiset String)) →
      id ∈ Move.visits moves := by
    intro id hid
    rw [hbalance] at hid
    rcases Multiset.mem_add.1 hid with hid | hid
    · exact hid
    · simpa using haccounts.old id hid
  have hcomplete : ∀ id, j.Reached stops starts id → id ∈ Move.visits moves := by
    intro id hid
    induction hid with
    | start h => exact harrived _ (Multiset.mem_add.2 (.inl h))
    | follow before h ih =>
      exact harrived _ (Multiset.mem_add.2 (.inr (Multiset.mem_bind.2 ⟨_, ih, h⟩)))
  have hvisits : (Move.visits moves : Multiset String) = (j.reach stops starts).val := by
    refine (Multiset.Nodup.ext (Multiset.coe_nodup.2 haccounts.nodup)
      (j.reach stops starts).nodup).2 fun id => ?_
    rw [Multiset.mem_coe, Finset.mem_val, mem_reach]
    exact ⟨h.reached_of_mem_visits done.subperm id, hcomplete id⟩
  refine ⟨hvisits, repeats, haccounts, ?_⟩
  rw [arrivals, ← hvisits, hbalance]

variable {ids' : List String} {moves' : List Move}

/-- What one exploration has visited, a finished one from the same first moves has visited too. -/
theorem visits_subset (h : j.Explored first ids moves) (h' : j.Explored first ids' moves')
    (done : ids'.Perm (moves'.flatMap Move.waitIds)) :
    ∀ id ∈ Move.visits moves, id ∈ Move.visits moves' := by
  obtain ⟨rest, repeats, rfl, haccounts⟩ := h'.exists_rest
  rw [Move.visits_append]
  -- Whatever arrives behind the first moves has been visited.
  have harrived : ∀ id ∈ (ids' : Multiset String).bind j.behind +
      (Move.visits rest : Multiset String).bind (fun id => (j.ways true id : Multiset String)),
      id ∈ Move.visits rest ++ Move.visits first := by
    intro id hid
    rw [haccounts.arrivals] at hid
    exact (Multiset.mem_add.1 hid).elim (List.mem_append_left _) (haccounts.old id)
  induction h with
  | start => exact fun id => List.mem_append_right _
  | @next ids moves id before met ih =>
    obtain ⟨rest', repeats', rfl, haccounts'⟩ := before.exists_rest
    have hid : id ∈ ids' := by
      -- A wait behind the first moves has been visited by both, and so has been met by both.
      refine done.symm.subset ?_
      rw [List.flatMap_append]
      have hmet := met.subset List.mem_cons_self
      rw [List.flatMap_append] at hmet
      refine List.mem_append.2 ((List.mem_append.1 hmet).imp_right fun hrest => ?_)
      rw [← Multiset.mem_coe, haccounts'.waitIds, Multiset.mem_filter] at hrest
      rw [← Multiset.mem_coe, haccounts.waitIds, Multiset.mem_filter]
      have hboth := ih id (by rw [Move.visits_append]; exact List.mem_append_left _ hrest.1)
      exact ⟨(List.mem_append.1 hboth).resolve_right (haccounts'.new id hrest.1), hrest.2⟩
    intro other hother
    rw [Move.visits_append] at hother
    refine (List.mem_append.1 hother).elim (fun hcourse => ?_) (ih other)
    refine j.mem_of_mem_visits (· ∈ Move.visits rest ++ Move.visits first) _ _
      (fun new hnew hvisited next hnext => ?_) (fun next hnext => ?_) other hcourse
    · rw [Move.visits_append] at hnew
      have hrest := (List.mem_append.1 hvisited).resolve_right fun hfirst =>
        hnew (List.mem_append_right _ hfirst)
      exact harrived next (Multiset.mem_add.2 (.inr (Multiset.mem_bind.2 ⟨new, hrest, hnext⟩)))
    · exact harrived next (Multiset.mem_add.2 (.inl (Multiset.mem_bind.2 ⟨id, hid, hnext⟩)))

/-- Finished explorations from the same first moves make the same moves, but for their order. -/
theorem flatMap_perm (h : j.Explored first ids moves) (h' : j.Explored first ids' moves')
    (done : ids.Perm (moves.flatMap Move.waitIds)) (done' : ids'.Perm (moves'.flatMap Move.waitIds))
    {β : Type} (f : Move → List β) : (moves.flatMap f).Perm (moves'.flatMap f) := by
  have hsubset := h.visits_subset h' done'
  have hsubset' := h'.visits_subset h done
  obtain ⟨rest, repeats, rfl, haccounts⟩ := h.exists_rest
  obtain ⟨rest', repeats', rfl, haccounts'⟩ := h'.exists_rest
  rw [List.flatMap_append] at done done'
  rw [Move.visits_append, Move.visits_append] at hsubset hsubset'
  have hvisits : (Move.visits rest : Multiset String) = Move.visits rest' := by
    refine (Multiset.Nodup.ext (Multiset.coe_nodup.2 haccounts.nodup)
      (Multiset.coe_nodup.2 haccounts'.nodup)).2 fun id => ⟨fun hid => ?_, fun hid => ?_⟩
    · have hboth := hsubset id (List.mem_append_left _ hid)
      exact (List.mem_append.1 hboth).resolve_right (haccounts.new id hid)
    · have hboth := hsubset' id (List.mem_append_left _ hid)
      exact (List.mem_append.1 hboth).resolve_right (haccounts'.new id hid)
  have hids : (ids : Multiset String) = ids' := by
    rw [Multiset.coe_eq_coe.2 done, Multiset.coe_eq_coe.2 done', ← Multiset.coe_add,
      ← Multiset.coe_add, haccounts.waitIds, haccounts'.waitIds, hvisits]
  have hrepeats : repeats = repeats' := by
    refine add_left_cancel (a := (Move.visits rest : Multiset String)) ?_
    rw [← haccounts.arrivals, hvisits, hids, haccounts'.arrivals]
  refine Multiset.coe_eq_coe.1 ?_
  rw [List.flatMap_append, List.flatMap_append, ← Multiset.coe_add, ← Multiset.coe_add,
    haccounts.flatMap f, haccounts'.flatMap f, hvisits, hrepeats]

end Explored

/-- Every move of an entry logs a step. -/
theorem logs_of_mem_entryMoves {id : String} {node : Node} :
    ∀ m ∈ j.entryMoves id node, m.logs = true := by
  have hvisits := List.reverse_eq_nil_iff.1 (j.visits_entryMoves id node)
  intro m hm
  have hnone := List.filterMap_eq_nil_iff.1 hvisits m hm
  cases m with
  | visit id => cases hnone
  | _ => rfl

/-- An entry logs its steps at its node. -/
theorem nodeIds_entering (j : Journey) (id : String) :
    Move.nodeIds (j.entering id) = List.replicate (j.entrySteps id) id := by
  unfold entering
  cases found : j.graph.node? id with
  | none => simp [entrySteps, found, Move.nodeIds]
  | some node =>
    have hall : (j.entryMoves id node).filter Move.logs = j.entryMoves id node :=
      List.filter_eq_self.2 logs_of_mem_entryMoves
    have hcons : Move.nodeIds (.visit id :: j.entryMoves id node) =
        (j.entryMoves id node).map Move.nodeId := by
      rw [Move.nodeIds, List.filter_cons_of_neg (by simp [Move.logs]), hall]
    rw [hcons, List.eq_replicate_iff, List.length_map, length_entryMoves found]
    refine ⟨rfl, fun other hother => ?_⟩
    obtain ⟨m, hm, rfl⟩ := List.mem_map.1 hother
    exact (j.entryMoves_spec id node).2 m hm

/-- The steps of moves, by their nodes: those of the entries and one for each repeat. -/
theorem Accounts.nodeIds (h : j.Accounts arrived moves [] repeats) :
    (Move.nodeIds moves : Multiset String) = (Move.visits moves : Multiset String).bind (fun id =>
      Multiset.replicate (j.entrySteps id) id) + repeats := by
  have hsteps : ∀ ms : List Move, Move.nodeIds ms = ms.flatMap fun m =>
      if m.logs then [m.nodeId] else [] := by
    intro ms
    induction ms with
    | nil => rfl
    | cons m rest ih =>
      rw [List.flatMap_cons, ← ih]
      cases hm : m.logs <;> simp [Move.nodeIds, hm]
  have hreturning : ∀ id ∈ repeats,
      ((Move.nodeIds (j.returning id) : List String) : Multiset String) = {id} := by
    intro id hid
    obtain ⟨node, found⟩ := h.found id (by simpa using h.old id hid)
    simp only [returning, found]
    rfl
  rw [hsteps, h.flatMap]
  simp only [← hsteps, nodeIds_entering, Multiset.coe_replicate]
  rw [Multiset.bind_congr hreturning, Multiset.bind_singleton, Multiset.map_id']

/-- How many steps moves log. -/
theorem Accounts.length_nodeIds (h : j.Accounts arrived moves [] repeats) :
    (Move.nodeIds moves).length =
      ((Move.visits moves : Multiset String).map j.entrySteps).sum + repeats.card := by
  have hsize : (Multiset.card ∘ fun id => Multiset.replicate (j.entrySteps id) id) = j.entrySteps :=
    funext fun id => Multiset.card_replicate _ _
  have hcard := congrArg Multiset.card h.nodeIds
  rwa [Multiset.card_add, Multiset.card_bind, hsize] at hcard

namespace Explored

/-- An exploration logs no more steps than the extent of the graph. -/
theorem length_le_extent (h : j.Explored (j.course starts []) ids moves)
    (due : ids.Subperm (owed stops moves)) :
    (Move.nodeIds moves).length ≤ j.extent stops starts := by
  obtain ⟨repeats, left, haccounts, -, hbalance⟩ := h.exists_balance due
  have hwithin : (Move.visits moves : Multiset String) ≤ (j.reach stops starts).val := by
    refine (Multiset.le_iff_subset (Multiset.coe_nodup.2 haccounts.nodup)).2 fun id hid => ?_
    exact mem_reach.2 (h.reached_of_mem_visits due id hid)
  obtain ⟨rest, hrest⟩ := Multiset.le_iff_exists_add.1 hwithin
  -- What is reached and not visited yet would log at least one step for each node.
  have hone : rest.card ≤ (rest.map j.entrySteps).sum := by
    have hle : ∀ n ∈ rest.map j.entrySteps, 1 ≤ n := by
      intro n hn
      obtain ⟨id, hid, rfl⟩ := Multiset.mem_map.1 hn
      have hmem : id ∈ j.reach stops starts :=
        Finset.mem_val.mp (hrest ▸ Multiset.mem_add.2 (.inr hid))
      obtain ⟨node, found⟩ := (mem_reach.1 hmem).exists_node
      exact one_le_entrySteps found
    simpa using Multiset.card_nsmul_le_sum hle
  have harrivals : (j.arrivals stops starts).card = ((j.present starts : Multiset String) +
      (Move.visits moves : Multiset String).bind fun id =>
        (j.ways stops id : Multiset String)).card +
      (rest.bind fun id => (j.ways stops id : Multiset String)).card := by
    rw [arrivals, hrest, Multiset.add_bind, ← Multiset.card_add, add_assoc]
  have hextent : j.extent stops starts = (j.arrivals stops starts).card -
      (j.reach stops starts).val.card + ((j.reach stops starts).val.map j.entrySteps).sum := rfl
  have hlength := haccounts.length_nodeIds
  rw [hbalance] at harrivals
  rw [hrest, Multiset.map_add, Multiset.sum_add] at hextent
  simp only [Multiset.card_add] at harrivals hextent
  omega

/-- A finished exploration logs as many steps as the extent of the graph. -/
theorem length_eq_extent (h : j.Explored (j.course starts []) ids moves)
    (done : ids.Perm (owed stops moves)) :
    (Move.nodeIds moves).length = j.extent stops starts := by
  obtain ⟨hvisits, repeats, haccounts, hsum⟩ := h.exists_of_finished done
  have hlength := haccounts.length_nodeIds
  have hcard := congrArg Multiset.card hsum
  have hextent : j.extent stops starts = (j.arrivals stops starts).card -
      (j.reach stops starts).val.card + ((j.reach stops starts).val.map j.entrySteps).sum := rfl
  rw [hvisits] at hlength
  rw [Multiset.card_add] at hcard
  omega

/-- Steps are logged at visited nodes. -/
theorem mem_visits_of_mem_nodeIds (h : j.Explored (j.course starts []) ids moves) {id : String}
    (hid : id ∈ Move.nodeIds moves) : id ∈ Move.visits moves := by
  obtain ⟨repeats, haccounts⟩ := h.exists_accounts
  rw [← Multiset.mem_coe, haccounts.nodeIds] at hid
  rcases Multiset.mem_add.1 hid with hid | hid
  · obtain ⟨other, hother, hid⟩ := Multiset.mem_bind.1 hid
    exact Multiset.eq_of_mem_replicate hid ▸ hother
  · simpa using haccounts.old id hid

/-- In a finished exploration the steps of a node tell how often it was arrived at: each arrival but
the first logs one step, and the first those of the entry. -/
theorem count_nodeIds (h : j.Explored (j.course starts []) ids moves)
    (done : ids.Perm (owed stops moves)) {id : String} (hid : id ∈ j.reach stops starts) :
    (Move.nodeIds moves).count id + 1 = j.entrySteps id + (j.arrivals stops starts).count id := by
  obtain ⟨hvisits, repeats, haccounts, hsum⟩ := h.exists_of_finished done
  have hentries : Multiset.count id ((j.reach stops starts).val.bind fun other =>
      Multiset.replicate (j.entrySteps other) other) = j.entrySteps id := by
    rw [Multiset.count_bind]
    simp only [Multiset.count_replicate]
    show ∑ other ∈ j.reach stops starts, (if other = id then j.entrySteps other else 0) = _
    rw [Finset.sum_ite_eq', if_pos hid]
  have hone : Multiset.count id (j.reach stops starts).val = 1 :=
    Multiset.count_eq_one_of_mem (j.reach stops starts).nodup hid
  have hcount := congrArg (Multiset.count id) haccounts.nodeIds
  rw [hvisits, Multiset.count_add, hentries, Multiset.coe_count] at hcount
  rw [← hsum, Multiset.count_add, hone]
  omega

end Explored

end Journey

end Dunning
