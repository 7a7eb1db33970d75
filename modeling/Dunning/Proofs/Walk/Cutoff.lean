import Dunning.Proofs.Walk.Calls
import Dunning.Proofs.Walk.Census
import Dunning.Proofs.Walk.Outbox

/-!
# The step limit as a clean cut

Two states that differ in their limit only are walked alike until the lower limit is
reached. There the one is cut, between two steps of the other, wherever the walk is at
that time. From then on it stays as it is, and the other one only adds to what it has.
-/
namespace Dunning

namespace WalkState

/-- A state that was cut at a limit, beside one that was let go on. -/
structure CutShort (limit : Nat) (short long : WalkState) : Prop where
  truncated : short.truncated = true
  log : ∃ next last, long.log[limit]? = some next ∧ short.log = long.log.take limit ++ [last] ∧
    last.IsLimit limit ∧ last.nodeId = next.nodeId
  dispatches : short.dispatches <+: long.dispatches
  pending : short.pending = []

namespace CutShort

variable {limit : Nat} {short long : WalkState}

/-- It does no harm if the other state goes on. -/
theorem of_extends (h : CutShort limit short long) {long' : WalkState}
    (log : long.log <+: long'.log) (dispatches : long.dispatches <+: long'.dispatches) :
    CutShort limit short long' := by
  obtain ⟨next, last, hnext, hlog, hlast⟩ := h.log
  obtain ⟨more, hmore⟩ := log
  have hlimit : limit < long.log.length := (List.getElem?_eq_some_iff.1 hnext).1
  have hnext' : long'.log[limit]? = some next := by
    rw [← hmore, List.getElem?_append_left hlimit, hnext]
  have htake : long'.log.take limit = long.log.take limit := by
    rw [← hmore, List.take_append_of_le_length hlimit.le]
  exact ⟨h.truncated, ⟨next, last, hnext', by rw [htake, hlog], hlast⟩,
    h.dispatches.trans dispatches, h.pending⟩

theorem perform (h : CutShort limit short long) (j : Journey) (m : Move) :
    CutShort limit short (long.perform j m) := by
  cases hopen : long.truncated with
  | true => rwa [perform_of_truncated j hopen]
  | false =>
    rcases perform_cases j hopen m with ⟨-, -, hcut⟩ | ⟨-, hgrown⟩
    · rw [hcut]
      exact h.of_extends (List.prefix_append _ _) (List.prefix_refl _)
    · rw [hgrown]
      exact h.of_extends (List.prefix_append _ _) (List.prefix_append _ _)

/-- Whatever the other state is called to do, the one that was cut stays behind it. -/
theorem carried (j : Journey) (limit : Nat) (short : WalkState) :
    Carried j (CutShort limit short) where
  walk agenda _ h := walk_of_perform (fun m _ h => h.perform j m) agenda h
  retime _ _ _ _ _ h := ⟨h.truncated, h.log, h.dispatches, h.pending⟩

end CutShort

/-- The limit has no say in what moves do for which there is room. -/
theorem grown_maxSteps (j : Journey) (moves : List Move) (s : WalkState) (n : Nat) :
    { s with maxSteps := n }.grown j moves = { s.grown j moves with maxSteps := n } := by
  have hstep : Move.step? j { s with maxSteps := n } = Move.step? j s := by
    funext m
    cases m <;> rfl
  unfold grown
  rw [hstep]
  rfl

/-- Two states with a lower and a higher limit that have been walked alike: they are at one place
and there has been room so far, or the first one was cut. -/
inductive Abreast (limit more : Nat) : WalkState → WalkState → Prop
  | together (s : WalkState) (fresh : s.truncated = false) (room : s.log.length ≤ limit) :
      Abreast limit more { s with maxSteps := limit } { s with maxSteps := more }
  | apart (short long : WalkState) (h : CutShort limit short long) : Abreast limit more short long

namespace Abreast

variable {limit more : Nat} {s t : WalkState}

/-- At the lower limit a move that logs a step cuts the one state. The other one logs the step, or
is cut likewise. -/
theorem cutShort_of_full (j : Journey) {m : Move} (logs : m.logs = true)
    (fresh : s.truncated = false) (full : s.log.length = limit) :
    CutShort limit ({ s with maxSteps := limit }.cut m.nodeId)
      ({ s with maxSteps := more }.perform j m) := by
  have hbehind : ∀ (long : WalkState) (step : Step), long.log = s.log ++ [step] →
      step.nodeId = m.nodeId → s.dispatches <+: long.dispatches →
      CutShort limit ({ s with maxSteps := limit }.cut m.nodeId) long := by
    intro long step hlog hid hout
    refine ⟨rfl, ⟨step, { s with maxSteps := limit }.limitStep m.nodeId, ?_, ?_, ⟨rfl, rfl, rfl⟩,
      hid.symm⟩, hout, rfl⟩
    · rw [hlog, ← full, List.getElem?_concat_length]
    · rw [hlog, ← full, List.take_left]
      rfl
  rcases perform_cases j (s := { s with maxSteps := more }) fresh m with ⟨-, -, hcut⟩ | ⟨-, hgrown⟩
  · rw [hcut]
    exact hbehind _ ({ s with maxSteps := more }.limitStep m.nodeId) rfl rfl (List.prefix_refl _)
  · rw [hgrown, grown_maxSteps]
    have hlogs := Move.isSome_step? j s m
    rw [logs] at hlogs
    obtain ⟨step, hstep⟩ := Option.isSome_iff_exists.1 hlogs
    refine hbehind _ step ?_ (Move.nodeId_of_step? hstep) (List.prefix_append _ _)
    simp [grown, hstep]

theorem perform (h : Abreast limit more s t) (le : limit ≤ more) (j : Journey) (m : Move) :
    Abreast limit more (s.perform j m) (t.perform j m) := by
  cases h with
  | together s fresh room =>
    rcases perform_cases j (s := { s with maxSteps := limit }) fresh m
      with ⟨hfull, hlogs, hcut⟩ | ⟨hroom, hgrown⟩
    · rw [hcut]
      exact .apart _ _ (cutShort_of_full j hlogs fresh (Nat.le_antisymm room hfull))
    · have hgrown' : { s with maxSteps := more }.perform j m =
          { s with maxSteps := more }.grown j [m] := by
        rcases perform_cases j (s := { s with maxSteps := more }) fresh m
          with ⟨hfull, hlogs, -⟩ | ⟨-, hall⟩
        · have hbelow : s.log.length < limit := hroom.resolve_right (by simp [hlogs])
          have hfull' : more ≤ s.log.length := hfull
          omega
        · exact hall
      rw [hgrown, hgrown', grown_maxSteps, grown_maxSteps]
      refine .together (s.grown j [m]) fresh ?_
      have hlength := length_grown_singleton j s m
      rcases hroom with hbelow | hlogs
      · have hbelow' : s.log.length < limit := hbelow
        split at hlength <;> omega
      · rw [hlogs] at hlength
        simpa [hlength] using room
  | apart _ _ h =>
    rw [perform_of_truncated j h.truncated]
    exact .apart _ _ (h.perform j m)

/-- The visited nodes are the same as long as they decide where a walk goes. -/
theorem walk (h : Abreast limit more s t) (le : limit ≤ more) (j : Journey)
    (agenda : List String) : Abreast limit more (s.walk j agenda) (t.walk j agenda) := by
  cases h with
  | together s fresh room =>
    rw [walk_eq, walk_eq]
    generalize j.course agenda s.visited = moves
    have hstart : Abreast limit more { s with maxSteps := limit } { s with maxSteps := more } :=
      .together s fresh room
    -- The moves are those of the common start, while the states part where the limit is reached.
    generalize { s with maxSteps := limit } = short at hstart ⊢
    generalize { s with maxSteps := more } = long at hstart ⊢
    induction moves generalizing short long with
    | nil => exact hstart
    | cons m rest ih => exact ih _ _ (hstart.perform le j m)
  | apart _ _ h =>
    rw [walk_of_truncated j agenda h.truncated]
    exact .apart _ _ ((CutShort.carried j limit _).walk agenda _ h)

theorem parallel (le : limit ≤ more) (j : Journey) : Parallel j j (Abreast limit more) where
  graph := rfl
  walk agenda _ _ h := h.walk le j agenda
  retime deferred now _ _ hopen h := by
    cases h with
    | together s fresh room =>
      exact .together { s with deferred := deferred, now := now } fresh room
    | apart _ _ h => cases h.truncated.symm.trans hopen
  level _ _ hopen h := by
    cases h with
    | together s fresh room => exact ⟨fresh, rfl⟩
    | apart _ _ h => cases h.truncated.symm.trans hopen
  behind short _ hcut h := by
    cases h with
    | together s fresh room => cases hcut.symm.trans fresh
    | apart _ _ h => exact .apart _ _ ((CutShort.carried j limit short).drain h)

end Abreast

/-- A walk that starts within its limit does all that its course says, or it is cut short of it. -/
theorem walk_cutShort (j : Journey) (agenda : List String) {s : WalkState}
    (fresh : s.truncated = false) (room : s.log.length ≤ s.maxSteps) :
    s.walk j agenda = s.grown j (j.course agenda s.visited) ∨
      CutShort s.maxSteps (s.walk j agenda) (s.grown j (j.course agenda s.visited)) := by
  let full := s.grown j (j.course agenda s.visited)
  let more := s.maxSteps + full.log.length + 1
  have hlong : { s with maxSteps := more }.walk j agenda = { full with maxSteps := more } := by
    rw [← grown_maxSteps]
    rcases walk_cases j agenda { s with maxSteps := more } with
      ⟨hcut, -⟩ | ⟨-, hall⟩ | ⟨-, made, m, rest, hsplit, -, hfull⟩
    · cases fresh.symm.trans hcut
    · exact hall
    · -- The limit is out of reach of all the moves together.
      have hmade : (s.grown j made).log.length ≤ full.log.length := by
        have hcourse : j.course agenda s.visited = made ++ m :: rest := hsplit
        simp only [full, grown, hcourse, List.filterMap_append, List.length_append]
        omega
      rw [grown_maxSteps] at hfull
      have hfull' : more ≤ (s.grown j made).log.length := hfull
      omega
  have habreast : Abreast s.maxSteps more (s.walk j agenda) { full with maxSteps := more } := by
    rw [← hlong]
    exact (Abreast.together s fresh room).walk (by omega) j agenda
  generalize s.walk j agenda = short at habreast ⊢
  generalize hother : { full with maxSteps := more } = long at habreast
  cases habreast with
  | together t _ _ =>
    exact .inl (congrArg (fun u => { u with maxSteps := s.maxSteps }) hother).symm
  | apart _ _ h =>
    subst hother
    exact .inr ⟨h.truncated, h.log, h.dispatches, h.pending⟩

/-- The requests that a cut state has added are those for the enrollment steps before the cut. -/
theorem CutShort.requested {limit : Nat} {j : Journey} {s short long : WalkState}
    (h : CutShort limit short long) (grew : Extends j s.runId s.log s.dispatches short)
    (room : s.log.length ≤ limit) : ∃ asked, short.dispatches = s.dispatches ++ asked ∧
      List.Forall₂ (Requested j s.runId)
        (enqueuedSteps ((long.log.take limit).drop s.log.length)) asked := by
  obtain ⟨-, added, asked, hadded, hasked, hall⟩ := grew
  obtain ⟨next, last, hnext, hlog, hlast, -⟩ := h.log
  refine ⟨asked, hasked, ?_⟩
  have hlimit : limit < long.log.length := (List.getElem?_eq_some_iff.1 hnext).1
  have hcut : added = (long.log.take limit).drop s.log.length ++ [last] := by
    have hdrop := congrArg (List.drop s.log.length) (hadded.symm.trans hlog)
    rw [List.drop_left, List.drop_append_of_le_length (by simp; omega)] at hdrop
    exact hdrop
  rwa [hcut, enqueuedSteps_append, enqueuedSteps_skipped hlast.action, List.append_nil] at hall

/-- Two states that differ in their limit only, walked by the same calls. If the one with the higher
limit comes to an end within the lower one, both do the same. Else the lower limit cuts its state
between two steps of the other: its log tells the same up to there and says so, it asks for what it
has logged, and it waits for nothing. A state that was cut is not changed any more. -/
theorem limit_cuts_clean (j : Journey) (calls : List WalkCall) {s : WalkState} {limit more : Nat}
    (le : limit ≤ more) (fresh : s.truncated = false) (room : s.log.length ≤ limit) :
    let short := { s with maxSteps := limit }.callAll j calls
    let long := { s with maxSteps := more }.callAll j calls
    (long.log.length ≤ limit → short = { long with maxSteps := limit }) ∧
    (limit < long.log.length → CutShort limit short long ∧
      ∃ asked, short.dispatches = s.dispatches ++ asked ∧ List.Forall₂ (Requested j s.runId)
        (enqueuedSteps ((long.log.take limit).drop s.log.length)) asked) ∧
    ∀ t : WalkState, t.truncated = true → ∀ k further step,
      t.callAll k further = t ∧ t.record step = t := by
  intro short long
  have habreast : Abreast limit more short long :=
    (Abreast.parallel le j).callAll calls (.together s fresh room)
  have hgrew : Extends j s.runId s.log s.dispatches short :=
    (steady_extends j s.runId s.log s.dispatches).callAll calls
      (Extends.self j { s with maxSteps := limit })
  refine ⟨fun within => ?_, fun beyond => ?_,
    fun t cut k further step => ⟨callAll_of_truncated k cut further, record_of_truncated cut step⟩⟩
  · generalize short = u, long = v at habreast within
    cases habreast with
    | together t _ _ => rfl
    | apart _ _ h =>
      obtain ⟨next, -, hnext, -⟩ := h.log
      have hlimit := (List.getElem?_eq_some_iff.1 hnext).1
      omega
  · have hcut : CutShort limit short long := by
      generalize short = u, long = v at habreast beyond
      cases habreast with
      | together t _ hroom =>
        have hroom' : t.log.length ≤ limit := hroom
        have hbeyond : limit < t.log.length := beyond
        omega
      | apart _ _ h => exact h
    exact ⟨hcut, hcut.requested hgrew room⟩

namespace roundabout

/-- A live walk that is continued behind the wait. -/
def walked (limit : Nat) : WalkState :=
  (start "run1" limit true .epoch).callAll { journey with mode := .live }
    [.walk "t", .drain, .downstream "w"]

theorem nodeIds_walked : (walked 10).log.map Step.nodeId = ["t", "s", "s", "s", "a", "w", "t"] := by
  cbv

end roundabout

open roundabout in
/-- A limit of three cuts the walk inside the switch, before the enrollment and the wait. -/
theorem limit_cuts_clean_roundabout : CutShort 3 (walked 3) (walked 10) ∧
    (walked 3).log.map Step.nodeId = ["t", "s", "s", "s"] ∧
    ∀ k further, (walked 3).callAll k further = walked 3 := by
  obtain ⟨-, hbeyond, hstill⟩ := limit_cuts_clean { journey with mode := .live }
    [.walk "t", .drain, .downstream "w"] (s := start "run1" 0 true .epoch) (by decide : 3 ≤ 10) rfl
    (Nat.zero_le _)
  have hlength : (walked 10).log.length = 7 := by
    rw [← List.length_map (f := Step.nodeId), nodeIds_walked]
    rfl
  have hcut : CutShort 3 (walked 3) (walked 10) :=
    (hbeyond (show 3 < (walked 10).log.length by omega)).1
  refine ⟨hcut, ?_, fun k further => (hstill _ hcut.truncated k further default).1⟩
  obtain ⟨next, last, hnext, hlog, -, hlast⟩ := hcut.log
  have hid : ((walked 10).log.map Step.nodeId)[3]? = some last.nodeId := by
    rw [List.getElem?_map, hnext, Option.map_some, hlast]
  rw [nodeIds_walked] at hid
  rw [hlog, List.map_append, List.map_take, nodeIds_walked, List.map_singleton,
    ← Option.some.inj hid]
  rfl

end WalkState

end Dunning
