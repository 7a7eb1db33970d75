import Dunning.Proofs.Run.Rereading
import Dunning.Proofs.Store.Guard

/-!
# The runs of a flow in the order of time

The rows of a flow are put in order by the texts of their start times. In plain years these are in
the order of time, so that the runs are told oldest first, and runs that started together as they
were recorded. Whatever has been written to the store, the runs in it are those that were recorded,
with later states of what may change, and they can be told: the text of an event is always read,
though its amount may not be the same.
-/
namespace Dunning

/-! ## The order of start times -/

namespace Timestamp

theorem toList_render_zone (zone : String) (t : Instant) :
    (render zone t).toList = (render "" t).toList ++ zone.toList := by
  simp [render]

/-- Different instants have different texts. -/
theorem render_inj {zone : String} {a b : Instant} (h : render zone a = render zone b) : a = b := by
  have hlist := congrArg String.toList h
  rw [toList_render_zone, toList_render_zone zone b, List.append_cancel_right_eq] at hlist
  have htext : a.text.toList = b.text.toList := by
    rw [Instant.text, Instant.text, toList_render_zone, hlist, ← toList_render_zone]
  have hread := read_text a
  rw [htext, read_text b] at hread
  exact (Except.ok.inj hread).symm

/-- In plain years timestamps are in the order of their instants, and only then. -/
theorem render_le_iff {a b : Instant} (ha : a.PlainYear) (hb : b.PlainYear) :
    render "+00:00" a ≤ render "+00:00" b ↔ a.le b = true := by
  refine ⟨fun h => ?_, render_le ha hb⟩
  rcases a.le_total b with hle | hge
  · exact hle
  · obtain rfl := render_inj (String.le_antisymm h (render_le hb ha hge))
    exact hge

end Timestamp

/-! ## What a store has of the runs that were recorded -/

namespace StoreCall

variable {σ : Type} [Store σ]

/-- The run that a call records, if it does. -/
def records (s : σ) : StoreCall → List Run
  | recordRun run => match Store.recordRun run s with
    | .ok _ => [run]
    | .error _ => []
  | _ => []

/-- The runs that calls record, in this order. -/
def recorded : List StoreCall → σ → List Run
  | [], _ => []
  | call :: rest, s => call.records s ++ recorded rest (call.perform s).2

end StoreCall

/-- Whether a row was written for a run; what may change since is left aside. -/
def RunRow.Stems (row : RunRow) (run : Run) : Prop :=
  row = { RunRow.ofRun run with
    status := row.status, completedAt := row.completedAt, log := row.log, pending := row.pending }

namespace RunRow.Stems

variable {row : RunRow} {run : Run}

theorem flowId_eq (h : row.Stems run) : row.flowId = run.flowId := by rw [h]; rfl

theorem startedAt_eq (h : row.Stems run) : row.startedAt = run.startedAt := by rw [h]; rfl

theorem continueRow (h : row.Stems run) (other : Run) (priorSteps : Nat) :
    (TableStore.continueRow other priorSteps row).Stems run := by
  unfold TableStore.continueRow
  split
  · rw [Stems, RunRow.continued, h]
  · exact h

end RunRow.Stems

/-- Whether the rows of a store were written for some runs, in the order of the runs. -/
def TableStore.Records (s : TableStore) (runs : List Run) : Prop :=
  List.Forall₂ RunRow.Stems s.runRows runs

namespace TableStore.Records

variable {s : TableStore} {runs : List Run}

theorem continueRun (h : s.Records runs) (run : Run) (priorSteps : Nat) :
    (s.continueRun run priorSteps).Records runs :=
  List.forall₂_map_left_iff.2 (h.imp fun _ _ stems => stems.continueRow run priorSteps)

/-- A call adds the run that it records. -/
theorem perform (h : s.Records runs) (call : StoreCall) :
    (call.perform s).2.Records (runs ++ call.records s) := by
  cases call with
  | recordRun run =>
    simp only [StoreCall.perform, StoreCall.records]
    cases hwrite : Store.recordRun run s with
    | error problem => simpa [StoreCall.written] using h
    | ok next =>
      have hrecord : s.recordRun run = .ok next := hwrite
      unfold TableStore.recordRun at hrecord
      split at hrecord
      · cases hrecord
      · obtain rfl := Except.ok.inj hrecord
        exact List.rel_append h (.cons rfl .nil)
  | updateRun run priorSteps =>
    simp only [StoreCall.perform, StoreCall.records, List.append_nil]
    cases hwrite : Store.updateRun run priorSteps s with
    | error problem => exact h
    | ok next =>
      have hupdate : s.updateRun run priorSteps = .ok next := hwrite
      unfold TableStore.updateRun at hupdate
      split_ifs at hupdate
      · obtain rfl := Except.ok.inj hupdate
        exact h.continueRun run priorSteps
      · obtain ⟨stored, -, hrefused⟩ := bind_eq_ok.1 hupdate
        split_ifs at hrefused
  | saveFlow | getFlow | activeFlows | getRun | listRuns =>
    simp only [StoreCall.records, List.append_nil]
    exact h

/-- After any calls a store has the runs that they recorded. -/
theorem after (h : s.Records runs) (calls : List StoreCall) :
    (StoreCall.after calls s).Records (runs ++ StoreCall.recorded calls s) := by
  induction calls generalizing s runs with
  | nil => simpa [StoreCall.after, StoreCall.recorded] using h
  | cons call rest ih =>
    have hrest := ih (h.perform call)
    rwa [List.append_assoc] at hrest

end TableStore.Records

/-! ## Telling the runs of a flow -/

/-- Whether a run is told as it was recorded, but for what may change and for the amount. -/
def Run.Retells (told run : Run) : Prop := ∃ amount,
  told = { run with
    triggerEvent := { run.triggerEvent with amount := amount }
    status := told.status, completedAt := told.completedAt, log := told.log, pending := told.pending }

/-- Runs that are told oldest first, and in the order in which they were recorded if they started at
the same time. -/
structure OldestFirst (recorded told : List Run) : Prop where
  ordered : told.Pairwise fun a b => a.startedAt.le b.startedAt = true
  stable : ∀ t, List.Forall₂ Run.Retells (told.filter fun run => run.startedAt = t)
    (recorded.filter fun run => run.startedAt = t)

/-! ## Rows by the texts of their start times -/

namespace RunRow

theorem sortKey_trans (a b c : RunRow) (hab : decide (a.sortKey ≤ b.sortKey))
    (hbc : decide (b.sortKey ≤ c.sortKey)) : decide (a.sortKey ≤ c.sortKey) := by
  simp only [decide_eq_true_eq] at hab hbc ⊢
  exact String.le_trans hab hbc

theorem sortKey_total (a b : RunRow) :
    (decide (a.sortKey ≤ b.sortKey) || decide (b.sortKey ≤ a.sortKey)) = true := by
  simpa using String.le_total a.sortKey b.sortKey

/-- The rows of runs that started in plain years are in the order of time. -/
theorem pairwise_mergeSort {rows : List RunRow} (plain : ∀ row ∈ rows, row.startedAt.PlainYear) :
    (rows.mergeSort fun a b => a.sortKey ≤ b.sortKey).Pairwise
      fun a b => a.startedAt.le b.startedAt = true := by
  have hplain : ∀ row ∈ rows.mergeSort fun a b => a.sortKey ≤ b.sortKey, row.startedAt.PlainYear :=
    fun row hrow => plain row ((List.mergeSort_perm rows _).mem_iff.1 hrow)
  refine (List.Pairwise.and_mem.1 (List.pairwise_mergeSort sortKey_trans sortKey_total rows)).imp ?_
  rintro a b ⟨ha, hb, hle⟩
  exact (Timestamp.render_le_iff (hplain a ha) (hplain b hb)).1 (of_decide_eq_true hle)

/-- The rows of runs that started together stay in their order. -/
theorem filter_startedAt_mergeSort (rows : List RunRow) (t : Instant) :
    (rows.mergeSort fun a b => a.sortKey ≤ b.sortKey).filter (fun row => row.startedAt = t) =
      rows.filter fun row => row.startedAt = t := by
  refine filter_mergeSort sortKey_trans sortKey_total (fun a b ha hb => ?_) rows
  simp [sortKey, of_decide_eq_true ha, of_decide_eq_true hb]

/-- The run that a row tells, if it tells one. -/
def told (row : RunRow) : Run :=
  match row.toRun with
  | .ok run => run
  | .error _ => default

variable {row : RunRow} {run : Run}

theorem told_eq (h : row.toRun = .ok run) : row.told = run := by
  rw [told, h]

/-- The row of a run can be read. -/
theorem Stems.toRun_eq (h : row.Stems run) (typed : run.triggerEvent.Typed) :
    row.toRun = .ok row.told ∧ row.told.Retells run := by
  obtain ⟨amount, hparse⟩ := Event.exists_parse typed
  have htext : row.triggerEvent = Event.codec.text run.triggerEvent := by rw [h]; rfl
  let told : Run := { run with
    triggerEvent := { run.triggerEvent with amount := amount }
    status := row.status, completedAt := row.completedAt, log := row.log, pending := row.pending }
  have hread : row.toRun = .ok told := by
    refine TableStore.toRun_eq_ok_iff.2 ⟨?_, ?_⟩
    · rw [htext, hparse]
    · rw [htext]
      exact h
  rw [told_eq hread]
  exact ⟨hread, amount, rfl⟩

theorem columns_of_toRun (h : row.toRun = .ok row.told) :
    row.told.id = row.runId ∧ row.told.startedAt = row.startedAt := by
  obtain ⟨-, hcolumns⟩ := TableStore.toRun_eq_ok_iff.1 h
  exact ⟨(congrArg RunRow.runId hcolumns).symm, (congrArg RunRow.startedAt hcolumns).symm⟩

end RunRow

/-- Since ids are distinct, a row is found under its id. -/
theorem TableStore.findRun_of_mem {s : TableStore} {row : RunRow} (h : row ∈ s.runRows) :
    s.findRun row.runId = some row := by
  cases hfound : s.findRun row.runId with
  | none => exact absurd (List.find?_eq_none.1 hfound row h) (by simp)
  | some other => rw [eq_of_findRun hfound h rfl]

namespace TableStore.Records

variable {s : TableStore} {runs : List Run}

/-- The rows of a flow were written for its runs. -/
theorem forall₂_of_flow (h : s.Records runs) (flowId : String) {P : Run → Prop}
    (known : ∀ run ∈ runs, run.flowId = flowId → P run) :
    List.Forall₂ (fun row run => P run ∧ row.Stems run)
      (s.runRows.filter fun row => row.flowId == flowId)
      (runs.filter fun run => run.flowId = flowId) := by
  have hflow : List.Forall₂ RunRow.Stems (s.runRows.filter fun row => row.flowId == flowId)
      (runs.filter fun run => run.flowId = flowId) :=
    List.rel_filter (fun row run stems => by simp [stems.flowId_eq]) h
  refine List.Forall₂.flip ((List.forall₂_and_left _ _).2 ⟨fun run hrun => ?_, hflow.flip⟩)
  obtain ⟨hmem, hid⟩ := List.mem_filter.1 hrun
  exact known run hmem (of_decide_eq_true hid)

/-- The runs of a flow can be told, and are told oldest first. -/
theorem exists_listRuns (h : s.Records runs) (flowId : String)
    (plain : ∀ run ∈ runs, run.flowId = flowId → run.startedAt.PlainYear)
    (typed : ∀ run ∈ runs, run.flowId = flowId → run.triggerEvent.Typed) : ∃ told,
      s.listRuns flowId = .ok told ∧ OldestFirst (runs.filter fun run => run.flowId = flowId) told ∧
        ∀ run ∈ told, s.getRun run.id = .ok run := by
  let rows := s.runRows.filter fun row => row.flowId == flowId
  let sorted := rows.mergeSort fun a b => a.sortKey ≤ b.sortKey
  have hrows : List.Forall₂ (fun row run => (row.toRun = .ok row.told ∧ row.startedAt.PlainYear) ∧
      row.startedAt = run.startedAt ∧ row.told.Retells run) rows
      (runs.filter fun run => run.flowId = flowId) := by
    refine (h.forall₂_of_flow flowId fun run hrun hid => And.intro (plain run hrun hid)
      (typed run hrun hid)).imp ?_
    rintro row run ⟨⟨hplain, htyped⟩, hstems⟩
    obtain ⟨hread, hretells⟩ := hstems.toRun_eq htyped
    exact ⟨⟨hread, hstems.startedAt_eq ▸ hplain⟩, hstems.startedAt_eq, hretells⟩
  obtain ⟨hreadable, hretells⟩ := (List.forall₂_and_left _ _).1 hrows
  have hmem : ∀ {row}, row ∈ sorted → row ∈ rows := (List.mergeSort_perm rows _).mem_iff.1
  have hcolumns : ∀ {row}, row ∈ sorted → row.told.id = row.runId ∧ row.told.startedAt = row.startedAt :=
    fun hrow => RunRow.columns_of_toRun (hreadable _ (hmem hrow)).1
  refine ⟨sorted.map RunRow.told, ?_, ⟨?_, fun t => ?_⟩, fun run hrun => ?_⟩
  · refine mapM_eq_ok_iff.2 (List.forall₂_map_right_iff.2 (List.forall₂_same.2 fun row hrow => ?_))
    exact (hreadable row (hmem hrow)).1
  · rw [List.pairwise_map]
    refine (List.Pairwise.and_mem.1 (RunRow.pairwise_mergeSort fun row hrow => (hreadable row hrow).2)).imp ?_
    rintro a b ⟨ha, hb, hle⟩
    rwa [(hcolumns ha).2, (hcolumns hb).2]
  · have hstart : (sorted.map RunRow.told).filter (fun run => run.startedAt = t) =
        (sorted.filter fun row => row.startedAt = t).map RunRow.told := by
      rw [List.filter_map]
      congr 1
      exact List.filter_congr fun row hrow => by simp [(hcolumns hrow).2]
    rw [hstart, RunRow.filter_startedAt_mergeSort, List.forall₂_map_left_iff]
    exact (List.rel_filter (fun row run hboth => by simp [hboth.1]) hretells).imp fun _ _ hboth => hboth.2
  · obtain ⟨row, hrow, rfl⟩ := List.mem_map.1 hrun
    rw [(hcolumns hrow).1]
    exact TableStore.getRun_eq_ok_iff.2 ⟨row, findRun_of_mem (List.mem_of_mem_filter (hmem hrow)),
      (hreadable row (hmem hrow)).1⟩

end TableStore.Records

/-- The texts by which runs are put in order are in the order of time in plain years. So whatever has
been asked of a table store that was empty, if the runs that were recorded for a flow started in plain
years, then the store tells them oldest first, and those that started together in the order in which
they were recorded. Each is told as it is told alone. -/
theorem runs_told_in_order_of_time :
    (∀ a b : Instant, a.PlainYear → b.PlainYear →
      (Timestamp.render "+00:00" a ≤ Timestamp.render "+00:00" b ↔ a.le b = true)) ∧
    ∀ calls flowId,
      (∀ run ∈ StoreCall.recorded calls (Store.empty : TableStore), run.flowId = flowId →
        run.startedAt.PlainYear ∧ run.triggerEvent.Typed) →
      ∃ told, Store.listRuns flowId (StoreCall.after calls (Store.empty : TableStore)) = .ok told ∧
        OldestFirst ((StoreCall.recorded calls (Store.empty : TableStore)).filter
          fun run => run.flowId = flowId) told ∧
        ∀ run ∈ told,
          Store.getRun run.id (StoreCall.after calls (Store.empty : TableStore)) = .ok run := by
  refine ⟨fun a b => Timestamp.render_le_iff, fun calls flowId known => ?_⟩
  have hempty : (Store.empty : TableStore).Records [] := .nil
  exact (hempty.after calls).exists_listRuns flowId (fun run hrun hid => (known run hrun hid).1)
    fun run hrun hid => (known run hrun hid).2

namespace turnOfYear

def midnight : Instant := ⟨1483228800, 0, by decide⟩

/-- In the leap second before midnight. -/
def leap : Instant := ⟨1483228799, 1500000000, by decide⟩

/-- A nanosecond later, which has six more digits. -/
def lateLeap : Instant := ⟨1483228799, 1500000001, by decide⟩

def begun (id flowId : String) (startedAt : Instant) : Run :=
  ⟨id, flowId, "acme", .manual, .ofTrigger "acme" .paymentFailed, .waiting, startedAt, none, [],
    [⟨"w", startedAt⟩]⟩

/-- The run that started first is recorded third, and is ended after that. -/
def calls : List StoreCall :=
  [.recordRun (begun "run1" "ledger" midnight), .recordRun (begun "run2" "ledger" lateLeap),
    .recordRun (begun "run3" "ledger" leap), .recordRun (begun "run4" "other" midnight),
    .recordRun (begun "run5" "ledger" lateLeap), .recordRun (begun "run5" "ledger" leap),
    .updateRun { begun "run3" "ledger" leap with status := .completed, pending := [] } 0]

/-- The runs in the order in which they are recorded; the fifth is recorded once. -/
def recorded : List Run :=
  [begun "run1" "ledger" midnight, begun "run2" "ledger" lateLeap, begun "run3" "ledger" leap,
    begun "run4" "other" midnight, begun "run5" "ledger" lateLeap]

end turnOfYear

theorem runs_told_in_order_of_time_leap :
    StoreCall.recorded turnOfYear.calls (Store.empty : TableStore) = turnOfYear.recorded ∧
    (∀ run ∈ turnOfYear.recorded, run.startedAt.PlainYear ∧ run.triggerEvent.Typed) ∧
    ∃ told, Store.listRuns "ledger" (StoreCall.after turnOfYear.calls (Store.empty : TableStore)) = .ok told ∧
      OldestFirst (turnOfYear.recorded.filter fun run => run.flowId = "ledger") told ∧
      ∀ run ∈ told, Store.getRun run.id
        (StoreCall.after turnOfYear.calls (Store.empty : TableStore)) = .ok run := by
  have hrecorded : StoreCall.recorded turnOfYear.calls (Store.empty : TableStore) =
      turnOfYear.recorded := rfl
  have hknown : ∀ run ∈ turnOfYear.recorded, run.startedAt.PlainYear ∧ run.triggerEvent.Typed := by
    have htyped : (Event.ofTrigger "acme" .paymentFailed).Typed := by rintro d ⟨⟩
    have hmidnight : turnOfYear.midnight.PlainYear := ⟨by decide +kernel, by decide +kernel⟩
    have hleap : turnOfYear.leap.PlainYear := ⟨by decide +kernel, by decide +kernel⟩
    simp only [turnOfYear.recorded, List.forall_mem_cons, List.not_mem_nil, false_implies, implies_true,
      and_true]
    exact ⟨⟨hmidnight, htyped⟩, ⟨hleap, htyped⟩, ⟨hleap, htyped⟩, ⟨hmidnight, htyped⟩, hleap, htyped⟩
  have htold := runs_told_in_order_of_time.2 turnOfYear.calls "ledger"
    fun run hrun _ => hknown run (hrecorded ▸ hrun)
  rw [hrecorded] at htold
  exact ⟨hrecorded, hknown, htold⟩

end Dunning
