import Dunning.Proofs.Flow.Graph
import Dunning.Proofs.Flow.ReadBack
import Dunning.Proofs.Walk.Calls
import Dunning.Proofs.Walk.Exploration
import Dunning.Proofs.Walk.Outbox

/-!
# Events that stand in for others

A store may give an event back with another amount. As long as the switches of the flow
decide alike for the two, a walk for the one goes the way of a walk for the other. They
differ in words only: in the amount that a condition is said to have been checked against.
-/
namespace Dunning

/-- The conditions of the switches of a flow. -/
def Flow.conditions (flow : Flow) : List Condition :=
  flow.nodes.flatMap fun node => node.body.conditions

/-- An event with another amount at most that meets the same conditions of a flow. -/
structure Event.StandsFor (told event : Event) (flow : Flow) : Prop where
  same : told = { event with amount := told.amount }
  alike : ∀ c ∈ flow.conditions, c.holds told = c.holds event

theorem Event.StandsFor.refl (event : Event) (flow : Flow) : event.StandsFor event flow :=
  ⟨rfl, fun _ _ => rfl⟩

/-- Where no switch asks for the amount, any other amount will do. -/
theorem Event.StandsFor.of_amount {flow : Flow}
    (unasked : ∀ c ∈ flow.conditions, c.field ≠ "amount") (event : Event) (amount : Option Binary64) :
    { event with amount := amount }.StandsFor event flow := by
  refine ⟨rfl, fun c hc => ?_⟩
  have hfield : { event with amount := amount }.field? c.field = event.field? c.field := by
    rw [field?, field?, if_neg (unasked c hc), if_neg (unasked c hc)]
  rw [Condition.holds, Condition.holds, hfield]

theorem Flow.condition_mem {flow : Flow} {id : String} {node : Node} {branches : List Branch}
    (found : (Graph.ofFlow flow).node? id = some node) (body : node.body = .switch branches)
    {b : Branch} (hb : b ∈ branches) : b.condition ∈ flow.conditions := by
  rw [Graph.node?_ofFlow, Flow.node?] at found
  refine List.mem_flatMap.2 ⟨node, List.mem_of_find?_eq_some found, ?_⟩
  rw [body]
  exact List.mem_map_of_mem hb

/-- What does not look at the words is the same for all that is the same without them. -/
theorem eq_of_silent {α β : Type} (wordless : α → α) {f : α → β}
    (silent : ∀ a, f (wordless a) = f a) {a b : α} (h : wordless a = wordless b) : f a = f b := by
  rw [← silent a, h, silent]

/-- The step without its words. -/
def Step.wordless (step : Step) : Step := { step with detail := "" }

/-- What a log foretells does not depend on its words. -/
theorem foretold_of_wordless {live dry dry' : List Step} (h : List.Forall₂ Step.Foretold live dry)
    (same : dry.map Step.wordless = dry'.map Step.wordless) :
    List.Forall₂ Step.Foretold live dry' := by
  have hsilent (steps : List Step) : List.Forall₂ Step.Foretold live (steps.map Step.wordless) =
      List.Forall₂ Step.Foretold live steps := by
    rw [List.forall₂_map_right_iff]
    exact propext ⟨fun h => h.imp fun _ _ h => ⟨h.nodeId, h.nodeKind, h.action⟩,
      fun h => h.imp fun _ _ h => ⟨h.nodeId, h.nodeKind, h.action⟩⟩
  rwa [← eq_of_silent _ hsilent same]

/-- Requests do not depend on the amount. -/
theorem requested_of_amount (g : Graph) (event : Event) (amount : Option Binary64) (mode : Mode) :
    Requested ⟨g, { event with amount := amount }, mode⟩ = Requested ⟨g, event, mode⟩ := by
  funext runId step request
  exact propext ⟨fun h => ⟨h.runId, h.orgId, h.nodeId, h.contactId, h.invoiceId, h.sequence⟩,
    fun h => ⟨h.runId, h.orgId, h.nodeId, h.contactId, h.invoiceId, h.sequence⟩⟩

namespace Move

/-- The move without the words that it logs. -/
def wordless : Move → Move
  | note id node action _ => note id node action ""
  | visit id => visit id
  | enroll id node e => enroll id node e
  | wait id node w => wait id node w

/-- What depends on no words is the same for moves that differ in words only. -/
theorem flatMap_eq_of_wordless {β : Type} {f : Move → List β} (silent : ∀ m, f m.wordless = f m)
    {moves moves' : List Move} (h : moves.map wordless = moves'.map wordless) :
    moves.flatMap f = moves'.flatMap f := by
  refine eq_of_silent (List.map wordless) (f := List.flatMap f) (fun ms => ?_) h
  rw [List.flatMap_map]
  exact congrArg (ms.flatMap ·) (funext silent)

theorem visits_wordless {moves moves' : List Move} (h : moves.map wordless = moves'.map wordless) :
    visits moves = visits moves' := by
  refine eq_of_silent (List.map wordless) (fun ms => ?_) h
  rw [visits, visits, List.filterMap_map]
  exact congrArg (fun f => (ms.filterMap f).reverse) (funext fun m => by cases m <;> rfl)

theorem nodeIds_wordless {moves moves' : List Move} (h : moves.map wordless = moves'.map wordless) :
    nodeIds moves = nodeIds moves' := by
  have hlogs : logs ∘ wordless = logs := funext fun m => by cases m <;> rfl
  have hnode : nodeId ∘ wordless = nodeId := funext fun m => by cases m <;> rfl
  refine eq_of_silent (List.map wordless) (fun ms => ?_) h
  rw [nodeIds, List.filter_map, hlogs, List.map_map, hnode, nodeIds]

theorem marks_wordless (mode : Mode) {moves moves' : List Move}
    (h : moves.map wordless = moves'.map wordless) :
    moves.flatMap (marks mode) = moves'.flatMap (marks mode) :=
  flatMap_eq_of_wordless (fun m => by cases m <;> rfl) h

theorem waitIds_wordless {moves moves' : List Move} (h : moves.map wordless = moves'.map wordless) :
    moves.flatMap waitIds = moves'.flatMap waitIds :=
  flatMap_eq_of_wordless (fun m => by cases m <;> rfl) h

end Move

namespace Journey

variable {flow : Flow} {event told : Event} (stands : told.StandsFor event flow) (mode : Mode)

include stands

/-- Where the conditions decide alike, the branches are tried alike and lead the same way. -/
theorem branches_wordless (id : String) (node : Node)
    (branches : List Branch) (mem : ∀ b ∈ branches, b.condition ∈ flow.conditions) :
    ((⟨.ofFlow flow, told, mode⟩ : Journey).branchMoves id node branches).map Move.wordless =
        ((⟨.ofFlow flow, event, mode⟩ : Journey).branchMoves id node branches).map Move.wordless ∧
      (⟨.ofFlow flow, told, mode⟩ : Journey).branchTargets id branches =
        (⟨.ofFlow flow, event, mode⟩ : Journey).branchTargets id branches := by
  induction branches with
  | nil => exact ⟨rfl, rfl⟩
  | cons b rest ih =>
    have hfirst := stands.alike _ (mem b List.mem_cons_self)
    obtain ⟨hmoves, htargets⟩ := ih fun other hother => mem other (List.mem_cons_of_mem b hother)
    simp only [branchMoves, branchTargets, hfirst]
    split
    · exact ⟨rfl, rfl⟩
    · exact ⟨congrArg (_ :: ·) hmoves, htargets⟩

/-- A node is entered alike and led on from alike. -/
theorem entry_wordless {id : String} {node : Node}
    (found : (Graph.ofFlow flow).node? id = some node) :
    ((⟨.ofFlow flow, told, mode⟩ : Journey).entryMoves id node).map Move.wordless =
        ((⟨.ofFlow flow, event, mode⟩ : Journey).entryMoves id node).map Move.wordless ∧
      (⟨.ofFlow flow, told, mode⟩ : Journey).onward id node =
        (⟨.ofFlow flow, event, mode⟩ : Journey).onward id node := by
  cases h : node.body with
  | «switch» branches =>
    obtain ⟨hmoves, htargets⟩ := branches_wordless stands mode id node branches
      fun b hb => Flow.condition_mem found h hb
    simp only [entryMoves, onward, h]
    exact ⟨congrArg (_ :: ·) hmoves, htargets⟩
  | _ => simp only [entryMoves, onward, h, and_self]

/-- The course for an event that stands for another one is the course for that, but for words. -/
theorem course_wordless (agenda visited : List String) :
    ((⟨.ofFlow flow, told, mode⟩ : Journey).course agenda visited).map Move.wordless =
      ((⟨.ofFlow flow, event, mode⟩ : Journey).course agenda visited).map Move.wordless := by
  fun_induction course (⟨.ofFlow flow, told, mode⟩ : Journey) agenda visited with
  | case1 visited => rw [course_nil]
  | case2 visited id rest missing ih =>
    rw [course_of_missing (j := ⟨.ofFlow flow, event, mode⟩) missing, ih]
  | case3 visited id rest node found old ih =>
    rw [course_of_visited (j := ⟨.ofFlow flow, event, mode⟩) found _ old, List.map_cons, ih,
      List.map_cons]
  | case4 visited id rest node found new ih =>
    obtain ⟨hmoves, honward⟩ := entry_wordless stands mode found
    rw [course_of_new (j := ⟨.ofFlow flow, event, mode⟩) found _ new, List.map_cons, List.map_append,
      ih, hmoves, honward, List.map_cons, List.map_append]

theorem tour_wordless (ids visited : List String) :
    ((⟨.ofFlow flow, told, mode⟩ : Journey).tour ids visited).map Move.wordless =
      ((⟨.ofFlow flow, event, mode⟩ : Journey).tour ids visited).map Move.wordless := by
  induction ids generalizing visited with
  | nil => rfl
  | cons id rest ih =>
    have hfirst := course_wordless stands mode
      ((⟨.ofFlow flow, event, mode⟩ : Journey).targets id) visited
    rw [tour, tour, List.map_append, List.map_append, ih]
    exact congrArg₂ (· ++ ·) hfirst (by rw [← Move.visits_wordless hfirst]; rfl)

/-- An exploration for an event that stands for another one is an exploration for that, but for
words. -/
theorem Explored.stand_in {first moves : List Move} {ids : List String}
    (h : (⟨.ofFlow flow, told, mode⟩ : Journey).Explored first ids moves) :
    ∃ moves', (⟨.ofFlow flow, event, mode⟩ : Journey).Explored first ids moves' ∧
      moves.map Move.wordless = moves'.map Move.wordless := by
  induction h with
  | start => exact ⟨first, .start, rfl⟩
  | @next ids moves id before met ih =>
    obtain ⟨moves', hexplored, hsame⟩ := ih
    refine ⟨_, .next hexplored (Move.waitIds_wordless hsame ▸ met), ?_⟩
    rw [List.map_append, List.map_append, hsame, Move.visits_wordless hsame]
    exact congrArg _ (course_wordless stands mode _ _)

end Journey

namespace WalkState

/-- The state without the words of its log. -/
def wordless (s : WalkState) : WalkState := { s with log := s.log.map Step.wordless }

theorem step?_wordless (j : Journey) (s : WalkState) (m : Move) :
    (m.wordless.step? j s.wordless).map Step.wordless = (m.step? j s).map Step.wordless := by
  cases m with
  | wait id node w =>
    have hnow : s.wordless.now = s.now := rfl
    simp only [Move.wordless, Move.step?, hnow]
    cases w.until? s.now <;> rfl
  | _ => rfl

theorem cut_wordless (s : WalkState) (id : String) :
    (s.wordless.cut id).wordless = (s.cut id).wordless := by
  have hwords : Step.wordless ∘ Step.wordless = Step.wordless := rfl
  simp only [cut, wordless, List.map_append, List.map_map, hwords]
  rfl

/-- Without words, a move adds the same. -/
theorem grown_wordless (j : Journey) (s : WalkState) (m : Move) :
    (s.wordless.grown j [m.wordless]).wordless = (s.grown j [m]).wordless := by
  have hlog : ((s.wordless.grown j [m.wordless]).wordless).log = ((s.grown j [m]).wordless).log := by
    simp only [grown, wordless, Move.filterMap_step?_cons, List.filterMap_nil, List.append_nil,
      List.map_append, List.map_map, ← Option.toList_map]
    exact congrArg₂ (· ++ ·) rfl (congrArg Option.toList (step?_wordless j s m))
  have hrest : s.wordless.grown j [m.wordless] =
      { s.grown j [m] with log := (s.wordless.grown j [m.wordless]).log } := by
    cases m <;> rfl
  rw [wordless] at hlog
  rw [hrest]
  exact congrArg (fun log => { s.grown j [m] with log := log }) hlog

variable {flow : Flow} {event told : Event} (stands : told.StandsFor event flow) (mode : Mode)

include stands

/-- Walks from states that differ in words only lead to such states. -/
theorem walk_wordless (agenda : List String) {s t : WalkState} (h : s.wordless = t.wordless) :
    (s.walk ⟨.ofFlow flow, told, mode⟩ agenda).wordless =
      (t.walk ⟨.ofFlow flow, event, mode⟩ agenda).wordless := by
  have hpaired : List.Forall₂ (fun m n => m.wordless = n.wordless)
      ((⟨.ofFlow flow, told, mode⟩ : Journey).course agenda s.visited)
      ((⟨.ofFlow flow, event, mode⟩ : Journey).course agenda t.visited) := by
    have hcourse := Journey.course_wordless stands mode agenda t.visited
    rw [eq_of_silent wordless (f := visited) (fun _ => rfl) h]
    rwa [← List.forall₂_eq_eq_eq, List.forall₂_map_left_iff, List.forall₂_map_right_iff] at hcourse
  have hgrown : ∀ (u : WalkState) (m : Move), u.grown ⟨.ofFlow flow, told, mode⟩ [m] =
      u.grown ⟨.ofFlow flow, event, mode⟩ [m] := by
    intro u m
    rw [stands.same]
    cases m <;> rfl
  rw [walk_eq, walk_eq]
  refine performAll_rel₂ _ _ (fun s t => s.wordless = t.wordless) (fun u v huv => ?_)
    (fun u v id _ huv => ?_) (fun m n hmn => ?_) (fun m n hmn u v _ huv => ?_) hpaired h
  · refine ⟨eq_of_silent wordless (fun _ => rfl) huv, eq_of_silent wordless (fun _ => rfl) huv, ?_⟩
    exact eq_of_silent wordless (f := fun u => u.log.length) (fun _ => List.length_map _) huv
  · rw [← cut_wordless, huv, cut_wordless]
  · exact ⟨eq_of_silent Move.wordless (fun m => by cases m <;> rfl) hmn,
      eq_of_silent Move.wordless (fun m => by cases m <;> rfl) hmn⟩
  · rw [hgrown, ← grown_wordless, huv, hmn, grown_wordless]

/-- What is deferred by states that differ in words only is drained alike. -/
theorem parallel_wordless : Parallel ⟨.ofFlow flow, told, mode⟩ ⟨.ofFlow flow, event, mode⟩
    fun s t => s.wordless = t.wordless where
  graph := rfl
  walk agenda _ _ h := walk_wordless stands mode agenda h
  retime deferred now _ _ _ h :=
    congrArg (fun u : WalkState => { u with deferred := deferred, now := now }) h
  level _ _ hopen h :=
    ⟨(eq_of_silent wordless (f := truncated) (fun _ => rfl) h).symm.trans hopen,
      (eq_of_silent wordless (f := deferred) (fun _ => rfl) h).symm⟩
  behind _ _ hcut h := by
    rw [drain_of_truncated _ ((eq_of_silent wordless (f := truncated) (fun _ => rfl) h).symm.trans hcut)]
    exact h

end WalkState

end Dunning
