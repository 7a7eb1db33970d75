import Dunning.Proofs.Run.Rereading
import Dunning.Store.Memory
import Dunning.Store.Table
import Mathlib.Data.List.Nodup

/-!
# What stores promise

The laws on which continuing a run rests. A store tells a run as it was written last,
saving flows does not touch runs, and a continuation is written exactly when the stored
run waits and its log has the length that the writer names. Both stores obey them. A
store of texts may give back an event with another amount than was written, and may not
be able to count every log, so both are left to the store to say.
-/
namespace Dunning

/-- A later version of a run: the same but for its status, its end, its log and its points. -/
def Run.Continues (run stored : Run) : Prop :=
  run = { stored with
    status := run.status, completedAt := run.completedAt, log := run.log, pending := run.pending }

namespace Run.Continues

theorem refl (run : Run) : run.Continues run := rfl

theorem id_eq {run stored : Run} (h : run.Continues stored) : run.id = stored.id := by
  rw [Continues] at h
  rw [h]

theorem symm {run stored : Run} (h : run.Continues stored) : stored.Continues run := by
  obtain ⟨a, b, c, d, e, f, g, i, j, k⟩ := stored
  simp only [Continues] at h ⊢
  rw [h]

theorem trans {a b c : Run} (hab : a.Continues b) (hbc : b.Continues c) : a.Continues c := by
  simp only [Continues] at *
  rw [hab, hbc]

end Run.Continues

class LawfulStore (σ : Type) [Store σ] where
  /-- The event that is read where one was written. -/
  reread : Event → Option Event
  /-- Whether the store can count so many steps. -/
  counts : Nat → Prop
  /-- No event is lost. It is read as it was written, but for the amount. -/
  exists_reread (event : Event) (typed : event.Typed) :
    ∃ amount, reread event = some { event with amount := amount }
  getRun_empty (id : String) : Store.getRun id (Store.empty : σ) = .error (.notFound id)
  getRun_saveFlow (flow : Flow) (id : String) (s : σ) :
    Store.getRun id (Store.saveFlow flow s) = Store.getRun id s
  /-- A run is recorded under an id that is not taken. -/
  recordRun_fresh (run : Run) (s : σ) (fresh : Store.getRun run.id s = .error (.notFound run.id)) :
    ∃ s', Store.recordRun run s = .ok s' ∧
      Store.getRun run.id s' ≠ .error (.notFound run.id) ∧
      (∀ told, Store.getRun run.id s' = .ok told ↔
        ∃ event, reread run.triggerEvent = some event ∧ told = { run with triggerEvent := event }) ∧
      (∀ id ≠ run.id, Store.getRun id s' = Store.getRun id s) ∧
      ∀ orgId flowId, Store.getFlow orgId flowId s' = Store.getFlow orgId flowId s
  /-- A continuation is written only over a waiting run with a log of the length named. -/
  updateRun_ok (run stored : Run) (priorSteps : Nat) (s s' : σ)
    (read : Store.getRun run.id s = .ok stored) (continues : run.Continues stored)
    (written : Store.updateRun run priorSteps s = .ok s') :
    stored.status = .waiting ∧ stored.log.length = priorSteps ∧
      Store.getRun run.id s' = .ok run ∧
      (∀ id ≠ run.id, Store.getRun id s' = Store.getRun id s) ∧
      ∀ orgId flowId, Store.getFlow orgId flowId s' = Store.getFlow orgId flowId s
  /-- It is refused because the run is over or has grown, and for no other reason. -/
  updateRun_error (run stored : Run) (priorSteps : Nat) (s : σ) (problem : StoreProblem)
    (read : Store.getRun run.id s = .ok stored) (countable : counts priorSteps)
    (refused : Store.updateRun run priorSteps s = .error problem) :
    (stored.status ≠ .waiting ∧ problem = .notWaiting run.id) ∨
      (stored.status = .waiting ∧ stored.log.length ≠ priorSteps ∧ problem = .conflict run.id)

namespace LawfulStore

variable (σ : Type) [Store σ] [LawfulStore σ]

/-- Whether an event is read back as it was written. -/
def tells (event : Event) : Prop := reread σ event = some event

/-- Whether an event is read back as it was written, but for the amount. Typed events are. -/
def Retains (event : Event) : Prop :=
  ∃ amount, reread σ event = some { event with amount := amount }

variable {σ}

/-- What belongs to the organization of an event belongs to that of the event as it is read. -/
theorem orgId_eq {event told : Event} (read : reread σ event = some told) {orgId : String}
    (own : orgId = event.orgId) (retained : Retains σ event) : orgId = told.orgId := by
  obtain ⟨amount, hamount⟩ := retained
  rw [← Option.some.inj (hamount.symm.trans read)]
  exact own

end LawfulStore

section
variable {σ : Type} {stored : Run} {priorSteps : Nat} {id : String} {next s' : σ}
  {problem : StoreProblem}

/-- An update that looks at the stored run first and is let through. -/
theorem written_of_gate
    (h : (if stored.status ≠ .waiting then Except.error (StoreProblem.notWaiting id)
      else if stored.log.length ≠ priorSteps then .error (.conflict id) else .ok next) = .ok s') :
    stored.status = .waiting ∧ stored.log.length = priorSteps ∧ next = s' := by
  split at h
  · cases h
  · rename_i hwaiting
    split at h
    · cases h
    · rename_i hlength
      exact ⟨not_not.1 hwaiting, not_not.1 hlength, Except.ok.inj h⟩

/-- An update that looks at the stored run first and is turned away. -/
theorem refused_of_gate
    (h : (if stored.status ≠ .waiting then Except.error (StoreProblem.notWaiting id)
      else if stored.log.length ≠ priorSteps then .error (.conflict id) else .ok next) =
        .error problem) :
    (stored.status ≠ .waiting ∧ problem = .notWaiting id) ∨
      (stored.status = .waiting ∧ stored.log.length ≠ priorSteps ∧ problem = .conflict id) := by
  split at h
  · rename_i hover
    exact .inl ⟨hover, (Except.error.inj h).symm⟩
  · rename_i hwaiting
    split at h
    · rename_i hlength
      exact .inr ⟨not_not.1 hwaiting, hlength, (Except.error.inj h).symm⟩
    · cases h

end

namespace MemoryStore

theorem getRun_eq_ok_iff {id : String} {s : MemoryStore} {run : Run} :
    s.getRun id = .ok run ↔ s.findRun id = some run := by
  unfold getRun
  cases s.findRun id <;> simp

theorem getRun_eq_notFound_iff {id : String} {s : MemoryStore} :
    s.getRun id = .error (.notFound id) ↔ s.findRun id = none := by
  unfold getRun
  cases s.findRun id <;> simp

theorem findRun_recordRun (run : Run) (id : String) (s : MemoryStore) :
    (s.recordRun run).findRun id = (s.findRun id).or (if run.id = id then some run else none) := by
  unfold findRun recordRun Keyed.find?
  rw [List.find?_append]
  by_cases h : run.id = id <;> simp [h]

/-- The memory store decides an update by the run that it would tell. -/
theorem updateRun_of_getRun {run stored : Run} (priorSteps : Nat) {s : MemoryStore}
    (read : s.getRun run.id = .ok stored) :
    s.updateRun run priorSteps =
      if stored.status ≠ .waiting then .error (.notWaiting run.id)
      else if stored.log.length ≠ priorSteps then .error (.conflict run.id)
      else .ok { s with runs := Keyed.put Run.id run s.runs } := by
  unfold updateRun
  rw [read]
  rfl

instance : LawfulStore MemoryStore where
  reread := some
  counts _ := True
  exists_reread event _ := ⟨event.amount, rfl⟩
  getRun_empty id := rfl
  getRun_saveFlow flow id s := rfl
  recordRun_fresh run s fresh := by
    have hnone : s.findRun run.id = none := getRun_eq_notFound_iff.1 fresh
    have hfound : (s.recordRun run).getRun run.id = .ok run :=
      getRun_eq_ok_iff.2 (by simp [findRun_recordRun, hnone])
    refine ⟨s.recordRun run, rfl, ?_, fun told => ⟨fun htold => ?_, ?_⟩, ?_, fun _ _ => rfl⟩
    · exact fun h => by cases hfound.symm.trans h
    · exact ⟨run.triggerEvent, rfl, (Except.ok.inj (hfound.symm.trans htold)).symm⟩
    · rintro ⟨event, hevent, rfl⟩
      obtain rfl : run.triggerEvent = event := Option.some.inj hevent
      exact hfound
    · intro id hid
      have hother : (s.recordRun run).findRun id = s.findRun id := by
        rw [findRun_recordRun, if_neg (Ne.symm hid), Option.or_none]
      show (s.recordRun run).getRun id = s.getRun id
      rw [getRun, getRun, hother]
  updateRun_ok run stored priorSteps s s' read continues written := by
    obtain ⟨hwaiting, hlength, rfl⟩ :=
      written_of_gate ((updateRun_of_getRun priorSteps read).symm.trans written)
    have hput : ∀ id, ({ s with runs := Keyed.put Run.id run s.runs } : MemoryStore).findRun id =
        if run.id = id then some run else s.findRun id :=
      fun id => Keyed.find?_put Run.id run id s.runs
    refine ⟨hwaiting, hlength, ?_, ?_, fun _ _ => rfl⟩
    · exact getRun_eq_ok_iff.2 (by rw [hput, if_pos rfl])
    · intro id hid
      show getRun id _ = getRun id s
      rw [getRun, getRun, hput, if_neg (Ne.symm hid)]
  updateRun_error run stored priorSteps s problem read _ refused :=
    refused_of_gate ((updateRun_of_getRun priorSteps read).symm.trans refused)

end MemoryStore

namespace TableStore

theorem toRun_ne_notFound (row : RunRow) (id : String) : row.toRun ≠ .error (.notFound id) := by
  unfold RunRow.toRun
  split <;> simp

theorem getRun_eq_ok_iff {id : String} {s : TableStore} {run : Run} :
    s.getRun id = .ok run ↔ ∃ row, s.findRun id = some row ∧ row.toRun = .ok run := by
  unfold getRun
  cases s.findRun id <;> simp

theorem getRun_eq_notFound_iff {id : String} {s : TableStore} :
    s.getRun id = .error (.notFound id) ↔ s.findRun id = none := by
  unfold getRun
  cases s.findRun id with
  | none => simp
  | some row => simp [toRun_ne_notFound]

theorem runId_of_findRun {id : String} {s : TableStore} {row : RunRow}
    (h : s.findRun id = some row) :
    row ∈ s.runRows ∧ row.runId = id :=
  ⟨List.mem_of_find?_eq_some h, by simpa using List.find?_some h⟩

/-- Since ids are distinct, no other row than the one found has the id. -/
theorem eq_of_findRun {id : String} {s : TableStore} {row other : RunRow}
    (h : s.findRun id = some row) (hmem : other ∈ s.runRows) (hid : other.runId = id) :
    other = row := by
  obtain ⟨hrow, hrowId⟩ := runId_of_findRun h
  exact List.inj_on_of_nodup_map s.distinctRuns hmem hrow (hid.trans hrowId.symm)

/-- What a row tells is its columns and the event in its text. -/
theorem toRun_eq_ok_iff {row : RunRow} {run : Run} :
    row.toRun = .ok run ↔ Event.codec.parse row.triggerEvent = .ok run.triggerEvent ∧
      row = { RunRow.ofRun run with triggerEvent := row.triggerEvent } := by
  obtain ⟨rowId, flowId, orgId, by_, text, status, started, completed, log, pending⟩ := row
  obtain ⟨id, flowId', orgId', by', event, status', started', completed', log', pending'⟩ := run
  unfold RunRow.toRun
  cases h : Event.codec.parse text with
  | error problem => simp
  | ok told =>
    simp only [Except.ok.injEq, RunRow.ofRun, Run.mk.injEq, RunRow.mk.injEq, true_and]
    tauto

theorem findRun_recordRun {run : Run} {s s' : TableStore} (h : s.recordRun run = .ok s')
    (id : String) :
    s'.findRun id = (s.findRun id).or (if run.id = id then some (.ofRun run) else none) := by
  unfold recordRun at h
  split at h
  · cases h
  · obtain rfl := Except.ok.inj h
    unfold findRun Keyed.find?
    rw [List.find?_append]
    by_cases hid : run.id = id <;> simp [RunRow.ofRun, hid]

theorem findRun_continueRun (run : Run) (priorSteps : Nat) (s : TableStore) (id : String) :
    (s.continueRun run priorSteps).findRun id =
      (s.findRun id).map (continueRow run priorSteps) := by
  unfold findRun continueRun Keyed.find?
  rw [List.find?_map]
  congr 2
  funext row
  simp [continueRow_runId]

/-- The table store decides an update by the row of the run, as long as it can count the steps. -/
theorem updateRun_of_getRun {run stored : Run} {priorSteps : Nat} {s : TableStore}
    (read : s.getRun run.id = .ok stored) (countable : priorSteps ≤ maxSteps) :
    s.updateRun run priorSteps =
      if stored.status ≠ .waiting then .error (.notWaiting run.id)
      else if stored.log.length ≠ priorSteps then .error (.conflict run.id)
      else .ok (s.continueRun run priorSteps) := by
  obtain ⟨row, hfind, htold⟩ := getRun_eq_ok_iff.1 read
  obtain ⟨hrow, hrowId⟩ := runId_of_findRun hfind
  obtain ⟨-, hcolumns⟩ := toRun_eq_ok_iff.1 htold
  have hstatus : row.status = stored.status := by rw [hcolumns]; rfl
  have hlog : row.log = stored.log := by rw [hcolumns]; rfl
  have hany : (s.runRows.any fun r => r.continues run priorSteps) = true ↔
      stored.status = .waiting ∧ stored.log.length = priorSteps := by
    rw [List.any_eq_true]
    constructor
    · rintro ⟨other, hother, hcontinues⟩
      simp only [RunRow.continues, Bool.and_eq_true, beq_iff_eq] at hcontinues
      obtain ⟨⟨hid, hwaiting⟩, hlength⟩ := hcontinues
      obtain rfl := eq_of_findRun hfind hother hid
      exact ⟨hstatus ▸ hwaiting, hlog ▸ hlength⟩
    · rintro ⟨hwaiting, hlength⟩
      exact ⟨row, hrow, by simp [RunRow.continues, hrowId, hstatus, hlog, hwaiting, hlength]⟩
  unfold updateRun
  rw [if_neg (Nat.not_lt.2 countable), read]
  by_cases hwaiting : stored.status = .waiting
  · by_cases hlength : stored.log.length = priorSteps
    · rw [if_pos (hany.2 ⟨hwaiting, hlength⟩)]
      simp [hwaiting, hlength]
    · rw [if_neg fun h => hlength (hany.1 h).2]
      simp [hwaiting, hlength, bind, Except.bind]
  · rw [if_neg fun h => hwaiting (hany.1 h).1]
    simp [hwaiting, bind, Except.bind]

/-- A run with an id that is not taken gets a row, and flows keep theirs. -/
theorem exists_recordRun {run : Run} {s : TableStore}
    (fresh : s.getRun run.id = .error (.notFound run.id)) : ∃ s', s.recordRun run = .ok s' ∧
      s'.findRun run.id = some (.ofRun run) ∧ s'.flowRows = s.flowRows := by
  have hnone : s.findRun run.id = none := getRun_eq_notFound_iff.1 fresh
  obtain ⟨s', hs', hflows⟩ : ∃ s', s.recordRun run = .ok s' ∧ s'.flowRows = s.flowRows := by
    unfold recordRun
    split
    · rename_i row hrow
      cases hnone.symm.trans hrow
    · exact ⟨_, rfl, rfl⟩
  refine ⟨s', hs', ?_, hflows⟩
  rw [findRun_recordRun hs', hnone, if_pos rfl, Option.none_or]

/-- A waiting run is told as it is continued. -/
theorem getRun_continueRun {run stored : Run} {s : TableStore} (read : s.getRun run.id = .ok stored)
    (continues : run.Continues stored) (waiting : stored.status = .waiting) :
    (s.continueRun run stored.log.length).getRun run.id = .ok run := by
  obtain ⟨row, hrow, htold⟩ := getRun_eq_ok_iff.1 read
  obtain ⟨hevent, hcolumns⟩ := toRun_eq_ok_iff.1 htold
  have hadmits : row.continues run stored.log.length = true := by
    rw [hcolumns]
    simp [RunRow.continues, RunRow.ofRun, waiting, continues.id_eq]
  refine getRun_eq_ok_iff.2 ⟨continueRow run stored.log.length row, ?_, ?_⟩
  · rw [findRun_continueRun, hrow, Option.map_some]
  · rw [continueRow, if_pos hadmits, toRun_eq_ok_iff]
    rw [Run.Continues] at continues
    refine ⟨?_, ?_⟩
    · rw [RunRow.continued, hevent, continues]
    · rw [hcolumns, continues]
      rfl

/-- Other runs are told as before. -/
theorem getRun_continueRun_of_ne {run : Run} {priorSteps : Nat} {id : String} (hid : id ≠ run.id)
    (s : TableStore) : (s.continueRun run priorSteps).getRun id = s.getRun id := by
  have hother : (s.continueRun run priorSteps).findRun id = s.findRun id := by
    rw [findRun_continueRun]
    cases hrow : s.findRun id with
    | none => rfl
    | some row =>
      have hrefuses : row.continues run priorSteps = false := by
        simp [RunRow.continues, (runId_of_findRun hrow).2, hid]
      rw [Option.map_some, continueRow, hrefuses, if_neg Bool.false_ne_true]
  rw [getRun, getRun, hother]

instance : LawfulStore TableStore where
  reread := Event.reread
  counts n := n ≤ maxSteps
  exists_reread event typed := by
    obtain ⟨amount, hread⟩ := Event.exists_parse typed
    exact ⟨amount, Event.reread_eq_some_iff.2 hread⟩
  getRun_empty id := rfl
  getRun_saveFlow flow id s := rfl
  recordRun_fresh run s fresh := by
    obtain ⟨s', hs', hfound, hflows⟩ := exists_recordRun fresh
    refine ⟨s', hs', ?_, fun told => ⟨fun htold => ?_, ?_⟩, ?_, ?_⟩
    · intro h
      cases hfound.symm.trans (getRun_eq_notFound_iff.1 h)
    · obtain ⟨row, hrow, hrun⟩ := getRun_eq_ok_iff.1 htold
      obtain rfl : .ofRun run = row := Option.some.inj (hfound.symm.trans hrow)
      obtain ⟨hevent, hcolumns⟩ := toRun_eq_ok_iff.1 hrun
      refine ⟨told.triggerEvent, Event.reread_eq_some_iff.2 hevent, ?_⟩
      cases run
      cases told
      simp only [RunRow.ofRun, RunRow.mk.injEq, true_and] at hcolumns
      simp [hcolumns]
    · rintro ⟨event, hevent, rfl⟩
      exact getRun_eq_ok_iff.2
        ⟨_, hfound, toRun_eq_ok_iff.2 ⟨Event.reread_eq_some_iff.1 hevent, rfl⟩⟩
    · intro id hid
      have hother : s'.findRun id = s.findRun id := by
        rw [findRun_recordRun hs', if_neg (Ne.symm hid), Option.or_none]
      show s'.getRun id = s.getRun id
      rw [getRun, getRun, hother]
    · intro orgId flowId
      show s'.getFlow orgId flowId = s.getFlow orgId flowId
      rw [getFlow, getFlow, hflows]
  updateRun_ok run stored priorSteps s s' read continues written := by
    have hcountable : priorSteps ≤ maxSteps := by
      by_contra hmany
      have : s.updateRun run priorSteps = .ok s' := written
      rw [updateRun, if_pos (Nat.lt_of_not_le hmany)] at this
      cases this
    obtain ⟨hwaiting, rfl, rfl⟩ :=
      written_of_gate ((updateRun_of_getRun read hcountable).symm.trans written)
    exact ⟨hwaiting, rfl, getRun_continueRun read continues hwaiting,
      fun id hid => getRun_continueRun_of_ne hid s, fun _ _ => rfl⟩
  updateRun_error run stored priorSteps s problem read countable refused :=
    refused_of_gate ((updateRun_of_getRun read countable).symm.trans refused)

end TableStore

end Dunning
