import Dunning.Proofs.Walk.Reach
import Dunning.Proofs.Walk.Limit

/-!
# Logs that follow the graph

A walk logs no step out of nowhere. The node of a step is a start, or an active edge leads
to it from a node that the log has told of before. Every part of a log shows this, also
that of a walk which the limit has ended.
-/
namespace Dunning

open WalkState

/-- A step that tells of a trigger of the graph, with the type of the trigger in its text. -/
def Step.TellsTrigger (g : Graph) (step : Step) : Prop :=
  ∃ node trigger, g.node? step.nodeId = some node ∧ node.body = .trigger trigger ∧
    step.detail = "Trigger matched: " ++ trigger.type.name

namespace Journey

/-- Whether a walk can come to a node behind a log. -/
def Arrives (j : Journey) (stops : Bool) (starts : List String) (log : List Step) (id : String) :
    Prop :=
  id ∈ j.present starts ∨ ∃ before ∈ enteredIds log, id ∈ j.ways stops before

/-- A step of a node to which a walk can come. Where it evaluates a trigger, it tells of it. -/
structure Follows (j : Journey) (stops : Bool) (starts : List String) (log : List Step) (step : Step) :
    Prop where
  arrives : j.Arrives stops starts log step.nodeId
  tells : step.action = .evaluated → step.nodeKind = some .trigger → step.TellsTrigger j.graph

/-- A log each step of which follows from those before it. The steps that belong to no node are free. -/
inductive Trail (j : Journey) (stops : Bool) (starts : List String) : List Step → Prop where
  | nil : Trail j stops starts []
  | concat {log : List Step} (before : Trail j stops starts log) (step : Step)
      (follows : step.nodeKind.isSome = true → j.Follows stops starts log step) :
      Trail j stops starts (log ++ [step])

variable {j : Journey} {stops : Bool} {starts : List String} {log : List Step} {id : String}

/-- A longer log leads further. -/
theorem Arrives.mono (h : j.Arrives stops starts log id) {longer : List Step}
    (more : log <+: longer) : j.Arrives stops starts longer id := by
  refine h.imp_right fun ⟨before, hbefore, hway⟩ => ⟨before, ?_, hway⟩
  exact ((more.filter _).map _).subset hbefore

/-- Where waits do not stop a run, it goes on at least as far. -/
theorem mem_ways_of_stopping {next : String} (h : next ∈ j.ways true id) :
    next ∈ j.ways stops id := by
  cases stops with
  | true => exact h
  | false =>
    rw [ways_passing]
    exact List.mem_append_left _ h

namespace Trail

/-- Any step of a node follows from the part of the log before it. -/
theorem follows (h : j.Trail stops starts log) {before after : List Step} {step : Step}
    (split : log = before ++ step :: after) (kinded : step.nodeKind.isSome = true) :
    j.Follows stops starts before step := by
  induction h generalizing after with
  | nil => simp at split
  | @concat log trail last hfollows ih =>
    rcases List.eq_nil_or_concat after with rfl | ⟨between, other, rfl⟩
    · obtain ⟨rfl, hlast⟩ := List.append_inj' split rfl
      obtain rfl : last = step := by simpa using hlast
      exact hfollows kinded
    · rw [List.concat_eq_append, ← List.cons_append, ← List.append_assoc] at split
      exact ih (List.append_inj_left' split rfl)

/-- All nodes of a trail are reached. -/
theorem reached (h : j.Trail stops starts log) :
    ∀ id ∈ enteredIds log, j.Reached stops starts id := by
  induction h with
  | nil => simp [enteredIds]
  | concat trail step hfollows ih =>
    intro id hid
    rw [enteredIds, List.filter_append, List.map_append, List.mem_append] at hid
    rcases hid with hid | hid
    · exact ih id hid
    · cases hkind : step.nodeKind.isSome with
      | false => simp [hkind] at hid
      | true =>
        obtain rfl : id = step.nodeId := by simpa [hkind] using hid
        rcases (hfollows hkind).arrives with hstart | ⟨before, hbefore, hway⟩
        · exact .start hstart
        · exact .follow (ih before hbefore) hway

end Trail

/-- The moves of entering a node log steps of its kind. -/
theorem nodeKind_of_mem_entryMoves {node : Node} {s : WalkState} {m : Move}
    (hm : m ∈ j.entryMoves id node) {step : Step} (logged : m.step? j s = some step) :
    step.nodeKind = some node.kind := by
  have hnote : ∀ action detail, m = .note id node action detail → step.nodeKind = some node.kind := by
    rintro action detail rfl
    obtain rfl := Option.some.inj logged
    rfl
  have hbranches : ∀ branches, m ∈ j.branchMoves id node branches →
      step.nodeKind = some node.kind := by
    intro branches
    induction branches with
    | nil => simp [branchMoves]
    | cons b rest ih =>
      simp only [branchMoves]
      split
      · exact fun hmem => hnote _ _ (List.mem_singleton.1 hmem)
      · exact fun hmem => (List.mem_cons.1 hmem).elim (hnote _ _) ih
  cases hbody : node.body with
  | trigger t =>
    simp only [entryMoves, hbody, List.mem_singleton] at hm
    exact hnote _ _ hm
  | «switch» branches =>
    simp only [entryMoves, hbody] at hm
    exact (List.mem_cons.1 hm).elim (hnote _ _) (hbranches branches)
  | enroll e =>
    simp only [entryMoves, hbody, List.mem_singleton] at hm
    subst hm
    obtain rfl := Option.some.inj logged
    cases j.mode <;> rfl
  | wait w =>
    simp only [entryMoves, hbody, List.mem_singleton] at hm
    subst hm
    obtain rfl := Option.some.inj logged
    cases w.until? s.now <;> rfl

/-- A step that entering a trigger logs tells of it. -/
theorem tells_of_mem_entryMoves {node : Node} (found : j.graph.node? id = some node) {s : WalkState}
    {m : Move} (hm : m ∈ j.entryMoves id node) {step : Step} (logged : m.step? j s = some step)
    (kind : step.nodeKind = some .trigger) : step.TellsTrigger j.graph := by
  have hkind : node.body.kind = .trigger :=
    Option.some.inj ((nodeKind_of_mem_entryMoves hm logged).symm.trans kind)
  cases hbody : node.body with
  | trigger t =>
    simp only [entryMoves, hbody, List.mem_singleton] at hm
    subst hm
    obtain rfl := Option.some.inj logged
    exact ⟨node, t, found, hbody, rfl⟩
  | _ => rw [hbody] at hkind; cases hkind

end Journey

namespace WalkState

/-- A state whose log is a trail and whose deferred points are waits that the log tells of. -/
structure OnTrail (j : Journey) (stops : Bool) (starts : List String) (s : WalkState) : Prop where
  trail : j.Trail stops starts s.log
  suspends : s.suspends j.mode = stops
  deferred : ∀ p ∈ s.deferred, stops = false ∧ p.nodeId ∈ enteredIds s.log ∧
    j.isWait p.nodeId = true

variable {j : Journey} {stops : Bool} {starts : List String} {s : WalkState}

theorem OnTrail.cut (h : OnTrail j stops starts s) (id : String) : OnTrail j stops starts (s.cut id) where
  trail := h.trail.concat _ fun hkind => by cases hkind
  suspends := h.suspends
  deferred := by simp [WalkState.cut]

/-- A move at a node to which the walk can come goes on along the trail. -/
theorem OnTrail.perform (h : OnTrail j stops starts s) {m : Move} (fits : m.Fits j.graph)
    (arrives : j.Arrives stops starts s.log m.nodeId)
    (tells : ∀ step, m.step? j s = some step → step.action = .evaluated →
      step.nodeKind = some .trigger → step.TellsTrigger j.graph) :
    OnTrail j stops starts (s.perform j m) := by
  cases hopen : s.truncated with
  | true => rwa [perform_of_truncated j hopen]
  | false =>
    rcases perform_cases j hopen m with ⟨-, -, hcut⟩ | ⟨-, hgrown⟩
    · rw [hcut]
      exact h.cut _
    rw [hgrown]
    have hlog : (s.grown j [m]).log = s.log ++ (m.step? j s).toList := by
      rw [grown, Move.filterMap_step?_cons]
      simp
    refine ⟨?_, h.suspends, ?_⟩
    · rw [hlog]
      cases hstep : m.step? j s with
      | none => simpa using h.trail
      | some step =>
        exact h.trail.concat step fun _ =>
          ⟨(Move.nodeId_of_step? hstep).symm ▸ arrives, tells step hstep⟩
    · intro p hp
      have hold : ∀ id ∈ enteredIds s.log, id ∈ enteredIds (s.grown j [m]).log := by
        intro id hid
        rw [hlog, enteredIds, List.filter_append, List.map_append]
        exact List.mem_append_left _ hid
      rcases List.mem_append.1 hp with hp | hp
      · obtain ⟨hstops, hentered, hwait⟩ := h.deferred p hp
        exact ⟨hstops, hold _ hentered, hwait⟩
      · -- A deferred point is that of a wait, which has logged its step.
        rw [h.suspends] at hp
        cases hstops : stops with
        | true => simp [hstops] at hp
        | false =>
          cases m with
          | wait id node w =>
            obtain ⟨t, -, rfl⟩ : ∃ t, w.until? s.now = some t ∧ p = ⟨id, t⟩ := by
              cases hend : w.until? s.now <;> simp_all [Move.points]
            refine ⟨rfl, ?_, ?_⟩
            · rw [hlog, enteredIds, List.filter_append, List.map_append]
              refine List.mem_append_right _ ?_
              cases hend : w.until? s.now <;>
                simp [Move.step?, hend, nodeStep, WalkState.step]
            · simp [Journey.isWait, fits.1, fits.2]
          | _ => simp [hstops, Move.points] at hp

/-- Moves only add to the log. -/
theorem log_prefix_performAll (j : Journey) (moves : List Move) (s : WalkState) :
    s.log <+: (s.performAll j moves).log := by
  cases hopen : s.truncated with
  | true => rw [performAll_of_truncated j hopen]
  | false =>
    rcases performAll_cases j moves hopen with hall | ⟨made, m, rest, -, hcut, -⟩
    · rw [hall]
      exact List.prefix_append _ _
    · rw [hcut]
      exact (List.prefix_append _ _).trans (List.prefix_append _ _)

/-- Entering a node to which the walk can come. -/
theorem OnTrail.entry {id : String} {node : Node} (found : j.graph.node? id = some node)
    (h : OnTrail j stops starts s) (arrives : j.Arrives stops starts s.log id) {moves : List Move}
    (part : ∀ m ∈ moves, m ∈ j.entryMoves id node) :
    OnTrail j stops starts (s.performAll j moves) := by
  induction moves generalizing s with
  | nil => exact h
  | cons m rest ih =>
    have hm := part m List.mem_cons_self
    have hid := (j.entryMoves_spec id node).2 m hm
    have hgrows : s.log <+: (s.perform j m).log := log_prefix_performAll j [m] s
    exact ih (h.perform (Journey.fits_of_mem_entryMoves found m hm) (hid.symm ▸ arrives)
      fun step hstep _ => Journey.tells_of_mem_entryMoves found hm hstep) (arrives.mono hgrows)
      fun other hother => part other (List.mem_cons_of_mem m hother)

/-- An entered node is one that the log tells of. -/
theorem mem_enteredIds_of_enter (j : Journey) (id : String) (node : Node)
    (hopen : (s.performAll j (j.entryMoves id node)).truncated = false) :
    id ∈ enteredIds (s.performAll j (j.entryMoves id node)).log := by
  have hbefore : s.truncated = false := by
    cases hs : s.truncated with
    | false => rfl
    | true => rw [← hopen, performAll_of_truncated j hs, hs]
  rcases performAll_cases j (j.entryMoves id node) hbefore with hall | ⟨_, _, _, -, hcut, -⟩
  · obtain ⟨⟨m, hm, hlogs⟩, hids⟩ := j.entryMoves_spec id node
    rw [hall]
    show id ∈ enteredIds (s.log ++ (j.entryMoves id node).filterMap (Move.step? j s))
    rw [enteredIds, List.filter_append, List.map_append, List.mem_append]
    refine .inr ?_
    have hadded := Move.enteredIds_filterMap j s (j.entryMoves id node)
    rw [enteredIds] at hadded
    rw [hadded]
    exact List.mem_map.2 ⟨m, List.mem_filter.2 ⟨hm, hlogs⟩, hids m hm⟩
  · rw [hcut] at hopen
    cases hopen

/-- Walks go on along the trail if they can come to all that is on their agenda. -/
theorem OnTrail.walk (h : OnTrail j stops starts s) (agenda : List String)
    (arrives : s.truncated = false →
      ∀ id ∈ j.present agenda, j.Arrives stops starts s.log id) :
    OnTrail j stops starts (s.walk j agenda) := by
  fun_induction WalkState.walk j agenda s with
  | case1 s => exact h
  | case2 s id rest hcut => exact h
  | case3 s id rest hopen missing ih =>
    exact ih h (Journey.present_cons_of_missing missing rest ▸ arrives)
  | case4 s id rest hopen node found old ih =>
    have hhere := arrives (by simpa using hopen)
    rw [Journey.present_cons_of_found found] at hhere
    have hnote := h.perform (m := Journey.revisit id node) ⟨found, .inr (.inr rfl)⟩
      (hhere id List.mem_cons_self) fun step hstep haction => by
        obtain rfl := Option.some.inj hstep
        cases haction
    exact ih hnote fun _ other hother => (hhere other (List.mem_cons_of_mem _ hother)).mono
      (log_prefix_performAll j [Journey.revisit id node] s)
  | case5 s id rest hopen node found new ih =>
    have hhere := arrives (by simpa using hopen)
    rw [Journey.present_cons_of_found found] at hhere
    rw [enter_eq] at ih ⊢
    have hvisit : OnTrail j stops starts (s.visit id) := ⟨h.trail, h.suspends, h.deferred⟩
    have hentered := hvisit.entry found (hhere id List.mem_cons_self) fun _ hm => hm
    refine ih hentered fun hopen' other hother => ?_
    rw [Journey.present_append, ← Journey.ways_stopping found] at hother
    rcases List.mem_append.1 hother with hother | hother
    · exact .inr ⟨id, mem_enteredIds_of_enter j id node hopen', Journey.mem_ways_of_stopping hother⟩
    · exact (hhere other (List.mem_cons_of_mem _ hother)).mono
        (log_prefix_performAll j _ (s.visit id))

/-- The drain goes on behind waits that the log tells of. -/
theorem OnTrail.drain (h : OnTrail j stops starts s) : OnTrail j stops starts (s.drain j) := by
  fun_induction WalkState.drain j s with
  | case1 s ht => exact h
  | case2 s ht found => exact h
  | case3 s ht point others found ih =>
    obtain ⟨before, behind, hpoints, rfl, -⟩ := takeEarliest_eq_some found
    obtain ⟨rfl, hentered, hwait⟩ := h.deferred point (by simp [hpoints])
    have hleft : ∀ p ∈ before ++ behind, p ∈ s.deferred := by
      rw [hpoints]
      exact ((List.Sublist.refl before).append (List.sublist_cons_self point behind)).subset
    have htaken : OnTrail j false starts
        { s with deferred := before ++ behind, now := point.resumeAt } :=
      ⟨h.trail, h.suspends, fun p hp => h.deferred p (hleft p hp)⟩
    refine ih (htaken.walk _ fun _ id hid => .inr ⟨point.nodeId, hentered, ?_⟩)
    rw [Journey.ways_passing, if_pos hwait]
    exact List.mem_append_right _ hid

end WalkState

end Dunning
