import Dunning.Proofs.Store.Refinement

/-!
# Guarded updates

A run that is over stays as it is, whoever writes to the store and whatever they write. An
update is let through exactly when the run that the store would tell waits and has the log
length that the writer names, and then it changes this run alone. Run ids need not be
distinct, and an update need not continue the run that it replaces.
-/
namespace Dunning

/-- The store after calls, one after the other. -/
def StoreCall.after {σ : Type} [Store σ] (calls : List StoreCall) (s : σ) : σ :=
  calls.foldl (fun s call => (call.perform s).2) s

/-- A store whose runs are a list. The first one with an id is told and updated. -/
class GuardedStore (σ : Type) [Store σ] [LawfulStore σ] where
  /-- The store has these runs, in the order in which they were recorded, and tells each as it was
  written. -/
  Keeps : σ → List Run → Prop
  /-- What an update makes of a stored run. -/
  revised : (run stored : Run) → Run
  revised_id {run stored : Run} (same : stored.id = run.id) : (revised run stored).id = run.id
  keeps_empty : Keeps Store.empty []
  keeps_saveFlow {s : σ} {runs : List Run} (h : Keeps s runs) (flow : Flow) :
    Keeps (Store.saveFlow flow s) runs
  keeps_recordRun {s s' : σ} {runs : List Run} (h : Keeps s runs) {run : Run}
    (told : LawfulStore.tells (σ := σ) run.triggerEvent) (written : Store.recordRun run s = .ok s') :
    Keeps s' (runs ++ [run])
  getRun_eq {s : σ} {runs : List Run} (h : Keeps s runs) (id : String) :
    Store.getRun id s = match Keyed.find? Run.id id runs with
      | some run => .ok run
      | none => .error (.notFound id)
  countable_of_updateRun {s s' : σ} {run : Run} {priorSteps : Nat}
    (written : Store.updateRun run priorSteps s = .ok s') : LawfulStore.counts (σ := σ) priorSteps
  updateRun_of_missing {s : σ} {runs : List Run} (h : Keeps s runs) {run : Run} {priorSteps : Nat}
    (countable : LawfulStore.counts (σ := σ) priorSteps)
    (missing : Keyed.find? Run.id run.id runs = none) :
    Store.updateRun run priorSteps s = .error (.notFound run.id)
  updateRun_of_found {s : σ} {runs : List Run} (h : Keeps s runs) {run stored : Run}
    {priorSteps : Nat} (countable : LawfulStore.counts (σ := σ) priorSteps)
    (found : Keyed.find? Run.id run.id runs = some stored) : ∃ s',
      Store.updateRun run priorSteps s =
        (if stored.status ≠ .waiting then .error (.notWaiting run.id)
        else if stored.log.length ≠ priorSteps then .error (.conflict run.id)
        else .ok s') ∧
      (stored.status = .waiting → stored.log.length = priorSteps →
        Keeps s' (Keyed.put Run.id (revised run stored) runs))

theorem Keyed.id_of_find? {id : String} {runs : List Run} {run : Run}
    (h : find? Run.id id runs = some run) : run.id = id := by
  simpa using List.find?_some h

instance : GuardedStore MemoryStore where
  Keeps s runs := s.runs = runs
  revised run _ := run
  revised_id _ := rfl
  keeps_empty := rfl
  keeps_saveFlow h _ := h
  keeps_recordRun {s s' runs} h run _ written := by
    obtain rfl : s.recordRun run = s' := Except.ok.inj written
    exact congrArg (· ++ [run]) h
  getRun_eq {s runs} h id := h ▸ rfl
  countable_of_updateRun _ := trivial
  updateRun_of_missing {s runs} h run priorSteps _ missing := by
    subst h
    show s.updateRun run priorSteps = _
    rw [MemoryStore.updateRun, MemoryStore.getRun_eq_notFound_iff.2 missing]
    rfl
  updateRun_of_found {s runs} h run stored priorSteps _ found := by
    subst h
    exact ⟨_, MemoryStore.updateRun_of_getRun priorSteps (MemoryStore.getRun_eq_ok_iff.2 found),
      fun _ _ => rfl⟩

/-- A stored run with all that an update may change taken from another. -/
def Run.overwritten (run stored : Run) : Run :=
  { stored with
    status := run.status, completedAt := run.completedAt, log := run.log, pending := run.pending }

namespace TableStore

/-- An update looks at nothing of the run but its id and what it may change. -/
theorem continueRow_overwritten {run stored : Run} (same : stored.id = run.id) (priorSteps : Nat) :
    continueRow (run.overwritten stored) priorSteps = continueRow run priorSteps := by
  funext row
  simp only [continueRow, RunRow.continues, Run.overwritten, same]
  rfl

theorem countable_of_updateRun {s s' : TableStore} {run : Run} {priorSteps : Nat}
    (written : s.updateRun run priorSteps = .ok s') : priorSteps ≤ maxSteps := by
  by_contra hmany
  rw [updateRun, if_pos (Nat.lt_of_not_le hmany)] at written
  cases written

/-- The rows of these runs, whose events can be read back. -/
structure Tells (s : TableStore) (runs : List Run) : Prop where
  rows : s.runRows = runs.map RunRow.ofRun
  events : ∀ run ∈ runs, run.triggerEvent.Legible

namespace Tells

variable {s s' : TableStore} {runs : List Run}

theorem findRun_eq (h : s.Tells runs) (id : String) :
    s.findRun id = (Keyed.find? Run.id id runs).map RunRow.ofRun := by
  unfold findRun
  rw [h.rows]
  exact Keyed.find?_map_of_keys Run.id RunRow.runId RunRow.ofRun (fun _ => rfl) id runs

theorem getRun_eq (h : s.Tells runs) (id : String) :
    s.getRun id = match Keyed.find? Run.id id runs with
      | some run => .ok run
      | none => .error (.notFound id) := by
  unfold getRun
  rw [h.findRun_eq]
  cases hfound : Keyed.find? Run.id id runs with
  | none => rfl
  | some run => exact RunRow.toRun_ofRun (h.events run (List.mem_of_find?_eq_some hfound))

theorem nodup (h : s.Tells runs) : (runs.map Run.id).Nodup := by
  have hdistinct := s.distinctRuns
  rwa [h.rows, List.map_map] at hdistinct

theorem recordRun (h : s.Tells runs) {run : Run} (legible : run.triggerEvent.Legible)
    (written : s.recordRun run = .ok s') : s'.Tells (runs ++ [run]) := by
  unfold TableStore.recordRun at written
  split at written
  · cases written
  · obtain rfl := Except.ok.inj written
    refine ⟨?_, fun other hother => ?_⟩
    · show s.runRows ++ _ = _
      rw [h.rows, List.map_append]
      rfl
    · rcases List.mem_append.1 hother with hother | hother
      · exact h.events other hother
      · exact List.mem_singleton.1 hother ▸ legible

/-- Continuing the row of a waiting run is putting the run that an update makes of it. -/
theorem continueRun (h : s.Tells runs) {run stored : Run}
    (found : Keyed.find? Run.id run.id runs = some stored) (waiting : stored.status = .waiting) :
    (s.continueRun run stored.log.length).Tells (Keyed.put Run.id (run.overwritten stored) runs) := by
  have hid : stored.id = run.id := Keyed.id_of_find? found
  have hname : (run.overwritten stored).id = run.id := hid
  have hcontinues : (run.overwritten stored).Continues stored := rfl
  refine ⟨?_, fun other hother => ?_⟩
  · show s.runRows.map _ = _
    rw [map_put hcontinues waiting h.nodup (hname ▸ found), continueRow_overwritten hid, h.rows]
  · rcases Keyed.mem_put hother with rfl | hother
    · exact h.events stored (List.mem_of_find?_eq_some found)
    · exact h.events other hother

theorem updateRun_of_missing (h : s.Tells runs) {run : Run} {priorSteps : Nat}
    (countable : priorSteps ≤ maxSteps) (missing : Keyed.find? Run.id run.id runs = none) :
    s.updateRun run priorSteps = .error (.notFound run.id) := by
  have hread : s.getRun run.id = .error (.notFound run.id) := by rw [h.getRun_eq, missing]
  have hnone : (s.runRows.any fun row => row.continues run priorSteps) = false := by
    rw [h.rows, List.any_map, List.any_eq_false]
    intro other hother hadmits
    have hid := List.find?_eq_none.1 missing other hother
    simp_all [RunRow.continues, RunRow.ofRun]
  rw [updateRun, if_neg (Nat.not_lt.2 countable), hnone, hread]
  rfl

end Tells

end TableStore

instance : GuardedStore TableStore where
  Keeps := TableStore.Tells
  revised := Run.overwritten
  revised_id same := same
  keeps_empty := ⟨rfl, by simp⟩
  keeps_saveFlow h _ := ⟨h.rows, h.events⟩
  keeps_recordRun h _ told written := h.recordRun (Event.reread_eq_some_iff.1 told) written
  getRun_eq h := h.getRun_eq
  countable_of_updateRun written := TableStore.countable_of_updateRun written
  updateRun_of_missing h _ _ countable missing := h.updateRun_of_missing countable missing
  updateRun_of_found {s runs} h run stored priorSteps countable found := by
    have hread : s.getRun run.id = .ok stored := by rw [h.getRun_eq, found]
    exact ⟨_, TableStore.updateRun_of_getRun hread countable,
      fun waiting length => length ▸ h.continueRun found waiting⟩

/-- Calls that record only runs whose events the store can read back. -/
def StoreCall.AllTold (σ : Type) [Store σ] [LawfulStore σ] (calls : List StoreCall) : Prop :=
  ∀ run, .recordRun run ∈ calls → LawfulStore.tells (σ := σ) run.triggerEvent

/-- Runs that have come of others: those that were over are still found under their ids. -/
def Settles (runs later : List Run) : Prop :=
  ∀ id run, Keyed.find? Run.id id runs = some run → run.status ≠ .waiting →
    Keyed.find? Run.id id later = some run

namespace Settles

theorem refl (runs : List Run) : Settles runs runs := fun _ _ h _ => h

theorem trans {a b c : List Run} (hab : Settles a b) (hbc : Settles b c) : Settles a c :=
  fun id run h ended => hbc id run (hab id run h ended) ended

/-- A run behind the others takes the place of none. -/
theorem append (runs more : List Run) : Settles runs (runs ++ more) := by
  intro id run h _
  unfold Keyed.find? at h ⊢
  rw [List.find?_append, h, Option.some_or]

/-- Putting a run in the place of one that waits leaves those that are over. -/
theorem put {runs : List Run} {new stored : Run}
    (found : Keyed.find? Run.id new.id runs = some stored) (waiting : stored.status = .waiting) :
    Settles runs (Keyed.put Run.id new runs) := by
  intro id run h ended
  rw [Keyed.find?_put]
  split
  · rename_i hid
    obtain rfl : stored = run := Option.some.inj (found.symm.trans (hid ▸ h))
    exact absurd waiting ended
  · exact h

end Settles

namespace GuardedStore

variable {σ : Type} [Store σ] [LawfulStore σ] [GuardedStore σ] {s : σ} {runs : List Run}

/-- A run is told when it is the first one with its id. -/
theorem getRun_eq_ok_iff (h : Keeps s runs) {id : String} {run : Run} :
    Store.getRun id s = .ok run ↔ Keyed.find? Run.id id runs = some run := by
  rw [getRun_eq h]
  cases Keyed.find? Run.id id runs <;> simp

/-- What an update has found that was let through. -/
theorem found_of_updateRun (h : Keeps s runs) {run : Run} {priorSteps : Nat} {s' : σ}
    (written : Store.updateRun run priorSteps s = .ok s') : ∃ stored,
      Keyed.find? Run.id run.id runs = some stored ∧ stored.status = .waiting ∧
      stored.log.length = priorSteps ∧ Keeps s' (Keyed.put Run.id (revised σ run stored) runs) := by
  have countable := countable_of_updateRun written
  cases hfound : Keyed.find? Run.id run.id runs with
  | none => cases (updateRun_of_missing h countable hfound).symm.trans written
  | some stored =>
    obtain ⟨next, hupdate, hkeeps⟩ := updateRun_of_found h countable hfound
    obtain ⟨hwaiting, hlength, rfl⟩ := written_of_gate (hupdate.symm.trans written)
    exact ⟨stored, rfl, hwaiting, hlength, hkeeps hwaiting hlength⟩

/-- One call leaves what is over. -/
theorem keeps_perform (h : Keeps s runs) {call : StoreCall}
    (told : StoreCall.AllTold σ [call]) :
    ∃ later, Keeps (call.perform s).2 later ∧ Settles runs later := by
  cases call with
  | saveFlow flow => exact ⟨runs, keeps_saveFlow h flow, .refl runs⟩
  | recordRun run =>
    simp only [StoreCall.perform]
    cases hwrite : Store.recordRun run s with
    | error problem => exact ⟨runs, h, .refl runs⟩
    | ok s' => exact ⟨_, keeps_recordRun h (told run List.mem_cons_self) hwrite, .append runs _⟩
  | updateRun run priorSteps =>
    simp only [StoreCall.perform]
    cases hwrite : Store.updateRun run priorSteps s with
    | error problem => exact ⟨runs, h, .refl runs⟩
    | ok s' =>
      obtain ⟨stored, hfound, hwaiting, -, hkeeps⟩ :=
        found_of_updateRun h hwrite
      have hid : (revised σ run stored).id = run.id := revised_id (Keyed.id_of_find? hfound)
      exact ⟨_, hkeeps, .put (hid.symm ▸ hfound) hwaiting⟩
  | _ => exact ⟨runs, h, .refl runs⟩

/-- Any number of calls leave what is over. -/
theorem keeps_after (h : Keeps s runs) {calls : List StoreCall}
    (told : StoreCall.AllTold σ calls) :
    ∃ later, Keeps (StoreCall.after calls s) later ∧ Settles runs later := by
  induction calls generalizing s runs with
  | nil => exact ⟨runs, h, .refl runs⟩
  | cons call rest ih =>
    obtain ⟨next, hnext, hsettles⟩ := keeps_perform h fun run hrun =>
      told run (List.mem_singleton.1 hrun ▸ List.mem_cons_self)
    obtain ⟨later, hlater, hmore⟩ := ih hnext fun run hrun => told run (List.mem_cons_of_mem _ hrun)
    exact ⟨later, hlater, hsettles.trans hmore⟩

end GuardedStore

/-- How a store decides about writes to its runs. -/
structure Guarded {σ : Type} [Store σ] [LawfulStore σ] [GuardedStore σ] (s : σ) : Prop where
  /-- A run that is over is told ever after as it is told now. -/
  final : ∀ id run, Store.getRun id s = .ok run → run.status ≠ .waiting →
    ∀ calls, StoreCall.AllTold σ calls → Store.getRun id (StoreCall.after calls s) = .ok run
  /-- An update is let through if the run waits and has not grown. -/
  written_iff : ∀ run priorSteps, LawfulStore.counts (σ := σ) priorSteps →
    ((∃ s', Store.updateRun run priorSteps s = .ok s') ↔ ∃ stored,
      Store.getRun run.id s = .ok stored ∧ stored.status = .waiting ∧
        stored.log.length = priorSteps)
  /-- It changes the run that would be told, and no other one. -/
  alone : ∀ run priorSteps s', Store.updateRun run priorSteps s = .ok s' → ∃ stored runs,
      Store.getRun run.id s = .ok stored ∧
      Store.getRun run.id s' = .ok (GuardedStore.revised σ run stored) ∧
      (∀ id ≠ run.id, Store.getRun id s' = Store.getRun id s) ∧
      GuardedStore.Keeps s runs ∧
      GuardedStore.Keeps s' (Keyed.put Run.id (GuardedStore.revised σ run stored) runs)
  /-- Otherwise nothing changes, and the first reason of three is told. -/
  refused : ∀ run priorSteps problem, LawfulStore.counts (σ := σ) priorSteps →
    Store.updateRun run priorSteps s = .error problem →
      (StoreCall.updateRun run priorSteps).perform s = (.failed problem, s) ∧
      match Store.getRun run.id s with
      | .error _ => problem = .notFound run.id
      | .ok stored => problem =
          if stored.status ≠ .waiting then .notWaiting run.id else .conflict run.id

namespace GuardedStore

variable {σ : Type} [Store σ] [LawfulStore σ] [GuardedStore σ] {s : σ} {runs : List Run}

/-- A store with a list of runs is guarded. -/
theorem guarded (h : Keeps s runs) : Guarded s where
  final id run hread hended calls told := by
    obtain ⟨later, hlater, hsettles⟩ := keeps_after h told
    exact (getRun_eq_ok_iff hlater).2 (hsettles id run ((getRun_eq_ok_iff h).1 hread) hended)
  written_iff run priorSteps countable := by
    constructor
    · rintro ⟨s', hwrite⟩
      obtain ⟨stored, hfound, hwaiting, hlength, -⟩ := found_of_updateRun h hwrite
      exact ⟨stored, (getRun_eq_ok_iff h).2 hfound, hwaiting, hlength⟩
    · rintro ⟨stored, hread, hwaiting, rfl⟩
      obtain ⟨s', hupdate, -⟩ :=
        updateRun_of_found h countable ((getRun_eq_ok_iff h).1 hread)
      rw [if_neg (not_not.2 hwaiting), if_neg (not_not.2 rfl)] at hupdate
      exact ⟨s', hupdate⟩
  alone run priorSteps s' hwrite := by
    obtain ⟨stored, hfound, -, -, hkeeps⟩ := found_of_updateRun h hwrite
    have hid : (revised σ run stored).id = run.id := revised_id (Keyed.id_of_find? hfound)
    refine ⟨stored, runs, (getRun_eq_ok_iff h).2 hfound, ?_, fun id hother => ?_, h, hkeeps⟩
    · rw [getRun_eq_ok_iff hkeeps, Keyed.find?_put, if_pos hid]
    · rw [getRun_eq hkeeps, getRun_eq h, Keyed.find?_put, if_neg fun e => hother (e.symm.trans hid)]
  refused run priorSteps problem countable hrefused := by
    refine ⟨by simp only [StoreCall.perform, hrefused]; rfl, ?_⟩
    rw [getRun_eq h]
    cases hfound : Keyed.find? Run.id run.id runs with
    | none => exact Except.error.inj (hrefused.symm.trans (updateRun_of_missing h countable hfound))
    | some stored =>
      obtain ⟨s', hupdate, -⟩ := updateRun_of_found h countable hfound
      rcases refused_of_gate (hupdate.symm.trans hrefused) with
        ⟨hended, rfl⟩ | ⟨hwaiting, -, rfl⟩
      · exact (if_pos hended).symm
      · exact (if_neg (not_not.2 hwaiting)).symm

end GuardedStore

/-- Whatever has been asked of two empty stores, both guard their runs from then on. The table store
does so if the events that it was given can be read back. -/
theorem updates_guarded :
    (∀ calls, Guarded (StoreCall.after calls (Store.empty : MemoryStore))) ∧
    ∀ calls, StoreCall.AllTold TableStore calls →
      Guarded (StoreCall.after calls (Store.empty : TableStore)) := by
  refine ⟨fun calls => ?_, fun calls told => ?_⟩
  · have htold : StoreCall.AllTold MemoryStore calls := fun _ _ => rfl
    obtain ⟨runs, hkeeps, -⟩ :=
      GuardedStore.keeps_after (GuardedStore.keeps_empty (σ := MemoryStore)) htold
    exact GuardedStore.guarded hkeeps
  · obtain ⟨runs, hkeeps, -⟩ :=
      GuardedStore.keeps_after (GuardedStore.keeps_empty (σ := TableStore)) told
    exact GuardedStore.guarded hkeeps

namespace ledger

/-- An end of the run in which it belongs to another flow. -/
def strayed : Run := { ended with flowId := "other" }

/-- The run is recorded twice and ended by a stranger. -/
def writes : List StoreCall := [.recordRun begun, .recordRun ended, .updateRun strayed 0]

end ledger

open ledger in
/-- The memory store takes the stranger's run as it is, and the table store only what may change.
Neither lets the run be ended again. -/
theorem updates_guarded_ledger :
    StoreCall.AllTold TableStore writes ∧
    Guarded (StoreCall.after writes (Store.empty : MemoryStore)) ∧
    Guarded (StoreCall.after writes (Store.empty : TableStore)) ∧
    Store.getRun "run1" (StoreCall.after writes (Store.empty : MemoryStore)) = .ok strayed ∧
    Store.getRun "run1" (StoreCall.after (writes ++ [.updateRun begun 0]) (Store.empty : TableStore)) =
      .ok ended := by
  have htold : StoreCall.AllTold TableStore writes := by
    have hbegun : begun.triggerEvent.Legible := Event.codec.parse_text_of_numberless rfl
    intro run hrun
    simp only [writes, List.mem_cons, StoreCall.recordRun.injEq, reduceCtorEq, List.not_mem_nil,
      or_false] at hrun
    rcases hrun with rfl | rfl <;> exact Event.reread_eq_some_iff.2 hbegun
  exact ⟨htold, updates_guarded.1 writes, updates_guarded.2 writes htold, rfl, by decide +kernel⟩

end Dunning
