import Dunning.Store.Memory
import Dunning.Store.Table
import Mathlib.Data.List.Forall2

/-!
# The flows of a store

What is in a store, whatever can be read back of it: the flows that were saved, in the
order in which their ids were saved first. A store that can list the live flows of an
organization lists those of its flows.
-/
namespace Dunning

class StockedStore (σ : Type) [Store σ] where
  /-- These are the flows of the store. -/
  Holds : σ → List Flow → Prop
  /-- Whether a flow is read back as it was written, if it is read back at all. -/
  keeps : Flow → Prop
  holds_empty : Holds Store.empty []
  holds_saveFlow {s : σ} {flows : List Flow} (flow : Flow) (h : Holds s flows)
    (kept : keeps flow) : Holds (Store.saveFlow flow s) (Keyed.put Flow.id flow flows)
  nodup {s : σ} {flows : List Flow} (h : Holds s flows) : (flows.map Flow.id).Nodup
  activeFlows_eq {s : σ} {flows found : List Flow} {orgId : String} (h : Holds s flows)
    (listed : Store.activeFlows orgId s = .ok found) :
    found = flows.filter fun flow => flow.orgId == orgId && flow.isLive

instance : StockedStore MemoryStore where
  Holds s flows := s.flows = flows
  keeps _ := True
  holds_empty := rfl
  holds_saveFlow flow h _ := congrArg (Keyed.put Flow.id flow) h
  nodup {s _} h := h ▸ s.distinct
  activeFlows_eq h listed := h ▸ (Except.ok.inj listed).symm

/-- Reading a list that can be read is reading each of its items. -/
theorem mapM_eq_ok_iff {α β : Type} {read : α → Except StoreProblem β} {items : List α}
    {found : List β} : items.mapM read = .ok found ↔
      List.Forall₂ (fun item told => read item = .ok told) items found := by
  induction items generalizing found with
  | nil => exact ⟨fun h => Except.ok.inj h ▸ .nil, fun h => by cases h; rfl⟩
  | cons item rest ih =>
    rw [List.mapM_cons]
    constructor
    · intro h
      cases htold : read item with
      | error problem => rw [htold] at h; cases h
      | ok told =>
        cases hothers : rest.mapM read with
        | error problem => rw [htold, hothers] at h; cases h
        | ok others =>
          rw [htold, hothers] at h
          obtain rfl : told :: others = found := Except.ok.inj h
          exact .cons htold (ih.1 hothers)
    · intro h
      obtain ⟨told, others, htold, hothers, rfl⟩ := List.forall₂_cons_left_iff.1 h
      rw [htold, ih.2 hothers]
      rfl

/-- A row with the columns of a flow, whose text tells no other flow. -/
structure FlowRow.Stands (row : FlowRow) (flow : Flow) : Prop where
  columns : row = { FlowRow.ofFlow flow with definition := row.definition }
  text : ∀ told, row.toFlow = .ok told → told = flow

namespace FlowRow

theorem Stands.key_eq {row : FlowRow} {flow : Flow} (h : row.Stands flow) :
    row.flowId = flow.id := by
  rw [h.columns]
  rfl

/-- Rows are chosen by their columns as their flows would be. -/
theorem Stands.live_eq {row : FlowRow} {flow : Flow} (h : row.Stands flow) (orgId : String) :
    (row.orgId == orgId && row.status == .active && row.deletedAt.isNone) =
      (flow.orgId == orgId && flow.isLive) := by
  rw [h.columns]
  exact Bool.and_assoc ..

/-- A row that is put where its flow is put. -/
theorem forall₂_put {row : FlowRow} {flow : Flow} (new : row.Stands flow) {rows : List FlowRow}
    {flows : List Flow} (h : List.Forall₂ Stands rows flows) :
    List.Forall₂ Stands (Keyed.put FlowRow.flowId row rows) (Keyed.put Flow.id flow flows) := by
  induction h with
  | nil => exact .cons new .nil
  | cons hfirst hrest ih =>
    rw [Keyed.put, Keyed.put, hfirst.key_eq, new.key_eq]
    split
    · exact .cons new hrest
    · exact .cons hfirst ih

/-- Rows that are all read tell their flows. -/
theorem eq_of_toFlow {rows : List FlowRow} {flows found : List Flow}
    (h : List.Forall₂ Stands rows flows)
    (read : List.Forall₂ (fun row flow => toFlow row = .ok flow) rows found) : found = flows := by
  induction h generalizing found with
  | nil => exact List.forall₂_nil_left_iff.1 read
  | cons hfirst hrest ih =>
    obtain ⟨told, others, htold, hothers, rfl⟩ := List.forall₂_cons_left_iff.1 read
    rw [hfirst.text told htold, ih hothers]

end FlowRow

instance : StockedStore TableStore where
  Holds s flows := List.Forall₂ FlowRow.Stands s.flowRows flows
  keeps flow := ∀ told, (FlowRow.ofFlow flow).toFlow = .ok told → told = flow
  holds_empty := .nil
  holds_saveFlow flow h kept := FlowRow.forall₂_put ⟨rfl, kept⟩ h
  nodup {s flows} h := by
    have hkeys : List.Forall₂ Eq (s.flowRows.map FlowRow.flowId) (flows.map Flow.id) :=
      List.rel_map (fun _ _ stands => stands.key_eq) h
    rw [List.forall₂_eq_eq_eq] at hkeys
    exact hkeys ▸ s.distinctFlows
  activeFlows_eq {s flows found orgId} h listed := by
    refine FlowRow.eq_of_toFlow (List.rel_filter (fun row flow stands => ?_) h)
      (mapM_eq_ok_iff.1 listed)
    exact Bool.coe_iff_coe.2 (stands.live_eq orgId)

end Dunning
