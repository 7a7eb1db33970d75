import Dunning.Proofs.Store.Refinement

/-!
# What an organization sees of a store

A store files flows by their ids alone, whoever they belong to. So of what the others have
saved, an organization sees no more than which places are taken: its view of a store is a
row of ids, with its own flows at those that belong to it. Saving a flow changes the view
by what the organization may see of that flow, and the answers to the organization follow
from its view.
-/
namespace Dunning

/-- A store of items, one for each flow, beside all that it knows of runs. What it tells an
organization of flows depends on the items of that organization. -/
class PartedStore (σ : Type) [Store σ] where
  Item : Type
  Ledger : Type
  item : Flow → Item
  key : Item → String
  owner : Item → String
  items : σ → List Item
  ledger : σ → Ledger
  key_item (flow : Flow) : key (item flow) = flow.id
  owner_item (flow : Flow) : owner (item flow) = flow.orgId
  items_empty : items Store.empty = []
  items_saveFlow (flow : Flow) (s : σ) :
    items (Store.saveFlow flow s) = Keyed.put key (item flow) (items s)
  ledger_saveFlow (flow : Flow) (s : σ) : ledger (Store.saveFlow flow s) = ledger s
  getFlow_congr {orgId : String} {s t : σ}
    (same : (items s).filter (fun x => owner x == orgId) =
      (items t).filter fun x => owner x == orgId) (flowId : String) :
    Store.getFlow orgId flowId s = Store.getFlow orgId flowId t
  activeFlows_congr {orgId : String} {s t : σ}
    (same : (items s).filter (fun x => owner x == orgId) =
      (items t).filter fun x => owner x == orgId) :
    Store.activeFlows orgId s = Store.activeFlows orgId t
  getRun_congr {s t : σ} (same : ledger s = ledger t) (runId : String) :
    Store.getRun runId s = Store.getRun runId t
  listRuns_congr {s t : σ} (same : ledger s = ledger t) (flowId : String) :
    Store.listRuns flowId s = Store.listRuns flowId t
  recordRun_congr {s t : σ} (same : ledger s = ledger t) (run : Run) :
    (∃ problem, Store.recordRun run s = .error problem ∧
      Store.recordRun run t = .error problem) ∨
    ∃ s' t', Store.recordRun run s = .ok s' ∧ Store.recordRun run t = .ok t' ∧
      ledger s' = ledger t' ∧ items s' = items s ∧ items t' = items t

/-- A search may begin with what is one's own. -/
theorem find?_filter_own {α : Type} (own named kept : α → Bool) (items : List α) :
    (items.filter own).find? (fun x => named x && kept x) =
      items.find? fun x => named x && own x && kept x := by
  rw [List.find?_filter]
  congr 1
  funext x
  cases named x <;> cases own x <;> simp

theorem MemoryStore.flows_empty : (Store.empty : MemoryStore).flows = [] := rfl

instance : PartedStore MemoryStore where
  Item := Flow
  Ledger := List Run
  item := id
  key := Flow.id
  owner := Flow.orgId
  items := MemoryStore.flows
  ledger := MemoryStore.runs
  key_item _ := rfl
  owner_item _ := rfl
  items_empty := MemoryStore.flows_empty
  items_saveFlow _ _ := rfl
  ledger_saveFlow _ _ := rfl
  getFlow_congr {orgId s t} same flowId := by
    have hown := find?_filter_own (fun f : Flow => f.orgId == orgId) (fun f => f.id == flowId)
      fun f => f.deletedAt.isNone
    show Except.ok (s.getFlow orgId flowId) = Except.ok (t.getFlow orgId flowId)
    rw [MemoryStore.getFlow, MemoryStore.getFlow, ← hown, ← hown, same]
  activeFlows_congr {orgId s t} same := by
    have hown : ∀ u : MemoryStore, u.activeFlows orgId =
        (u.flows.filter fun f => f.orgId == orgId).filter Flow.isLive := by
      intro u
      rw [List.filter_filter, MemoryStore.activeFlows]
      congr 1
      funext f
      exact Bool.and_comm ..
    show Except.ok (s.activeFlows orgId) = Except.ok (t.activeFlows orgId)
    rw [hown, hown, same]
  getRun_congr {s t} same runId := by
    show s.getRun runId = t.getRun runId
    rw [MemoryStore.getRun, MemoryStore.getRun, MemoryStore.findRun, MemoryStore.findRun, same]
  listRuns_congr {s t} same flowId := by
    show Except.ok (s.listRuns flowId) = Except.ok (t.listRuns flowId)
    rw [MemoryStore.listRuns, MemoryStore.listRuns, same]
  recordRun_congr {s t} same run :=
    .inr ⟨s.recordRun run, t.recordRun run, rfl, rfl, congrArg (· ++ [run]) same, rfl, rfl⟩

instance : PartedStore TableStore where
  Item := FlowRow
  Ledger := List RunRow
  item := .ofFlow
  key := FlowRow.flowId
  owner := FlowRow.orgId
  items := TableStore.flowRows
  ledger := TableStore.runRows
  key_item _ := rfl
  owner_item _ := rfl
  items_empty := rfl
  items_saveFlow _ _ := rfl
  ledger_saveFlow _ _ := rfl
  getFlow_congr {orgId s t} same flowId := by
    have hown := find?_filter_own (fun r : FlowRow => r.orgId == orgId)
      (fun r => r.flowId == flowId) fun r => r.deletedAt.isNone
    show s.getFlow orgId flowId = t.getFlow orgId flowId
    rw [TableStore.getFlow, TableStore.getFlow, ← hown, ← hown, same]
  activeFlows_congr {orgId s t} same := by
    have hown : ∀ u : TableStore,
        (u.flowRows.filter fun r => r.orgId == orgId && r.status == .active && r.deletedAt.isNone) =
        (u.flowRows.filter fun r => r.orgId == orgId).filter fun r =>
          r.status == .active && r.deletedAt.isNone := by
      intro u
      rw [List.filter_filter]
      congr 1
      funext r
      rw [Bool.and_assoc, Bool.and_comm]
    show s.activeFlows orgId = t.activeFlows orgId
    rw [TableStore.activeFlows, TableStore.activeFlows, hown, hown, same]
  getRun_congr {s t} same runId := by
    show s.getRun runId = t.getRun runId
    rw [TableStore.getRun, TableStore.getRun, TableStore.findRun, TableStore.findRun, same]
  listRuns_congr {s t} same flowId := by
    show s.listRuns flowId = t.listRuns flowId
    rw [TableStore.listRuns, TableStore.listRuns, same]
  recordRun_congr {s t} same run := by
    have hfound : t.findRun run.id = s.findRun run.id := by
      rw [TableStore.findRun, TableStore.findRun, same]
    show (∃ problem, s.recordRun run = .error problem ∧ t.recordRun run = .error problem) ∨
      ∃ s' t', s.recordRun run = .ok s' ∧ t.recordRun run = .ok t' ∧ s'.runRows = t'.runRows ∧
        s'.flowRows = s.flowRows ∧ t'.flowRows = t.flowRows
    unfold TableStore.recordRun
    split
    · rename_i row hrow
      refine .inl ⟨_, rfl, ?_⟩
      split
      · rfl
      · rename_i hnone
        cases (hfound.trans hrow).symm.trans hnone
    · rename_i hnone
      right
      split
      · rename_i row hrow
        cases (hfound.trans hnone).symm.trans hrow
      · exact ⟨_, _, rfl, rfl, congrArg (· ++ [RunRow.ofRun run]) same, rfl, rfl⟩

/-- An item is put among the chosen ones if its key is chosen. -/
theorem Keyed.filter_put {α κ : Type} [DecidableEq κ] (key : α → κ) (chosen : κ → Bool) (item : α)
    (items : List α) : (put key item items).filter (fun x => chosen (key x)) =
      if chosen (key item) then put key item (items.filter fun x => chosen (key x))
      else items.filter fun x => chosen (key x) := by
  induction items with
  | nil => cases h : chosen (key item) <;> simp [put, h]
  | cons x rest ih =>
    by_cases hkey : key x = key item
    · cases h : chosen (key item) <;> simp [put, hkey, h]
    · cases h : chosen (key item) <;> cases hx : chosen (key x) <;>
        simp [put, hkey, h, hx, ih]

namespace PartedStore

variable {σ : Type} [Store σ] [PartedStore σ]

/-- What an organization may see of an item: its id, and the rest if it is its own. -/
def shown (orgId : String) (x : Item σ) : String × Option (Item σ) :=
  (key x, if owner x = orgId then some x else none)

/-- What an organization may see of the items under some ids. -/
def view (orgId : String) (places : String → Bool) (s : σ) : List (String × Option (Item σ)) :=
  ((items s).filter fun x => places (key x)).map (shown orgId)

/-- Saving a flow shows of it what may be seen, if its place can be. -/
theorem view_saveFlow (orgId : String) (places : String → Bool) (flow : Flow) (s : σ) :
    view orgId places (Store.saveFlow flow s) =
      if places flow.id then Keyed.put Prod.fst (shown orgId (item flow)) (view orgId places s)
      else view orgId places s := by
  rw [view, items_saveFlow, Keyed.filter_put, key_item]
  cases places flow.id with
  | true => exact Keyed.map_put_of_keys key Prod.fst (shown orgId) (fun _ => rfl) _ _
  | false => rfl

/-- The flows of an organization have places that it sees. -/
def Owns (orgId : String) (places : String → Bool) (s : σ) : Prop :=
  ∀ x ∈ items s, owner x = orgId → places (key x) = true

theorem Owns.saveFlow {orgId : String} {places : String → Bool} {s : σ} (h : Owns orgId places s)
    {flow : Flow} (own : flow.orgId = orgId → places flow.id = true) :
    Owns orgId places (Store.saveFlow flow s) := by
  intro x hx howner
  rw [items_saveFlow] at hx
  rcases Keyed.mem_put hx with rfl | hx
  · rw [key_item]
    rw [owner_item] at howner
    exact own howner
  · exact h x hx howner

/-- An organization sees all of what is its own. -/
theorem Owns.filter_owner {orgId : String} {places : String → Bool} {s : σ}
    (h : Owns orgId places s) : (items s).filter (fun x => owner x == orgId) =
      (view orgId places s).filterMap Prod.snd := by
  have hsnd : Prod.snd ∘ shown orgId = Option.guard fun x : Item σ => owner x == orgId := by
    funext x
    simp [shown, Option.guard]
  rw [view, List.filterMap_map, hsnd, List.filterMap_eq_filter, List.filter_filter]
  refine List.filter_congr fun x hx => ?_
  by_cases howner : owner x = orgId
  · simp [howner, h x hx howner]
  · simp [howner]

/-- Two stores that an organization cannot tell apart. -/
structure Alike (orgId : String) (places : String → Bool) (s t : σ) : Prop where
  ledger : PartedStore.ledger s = PartedStore.ledger t
  view : PartedStore.view orgId places s = PartedStore.view orgId places t
  left : Owns orgId places s
  right : Owns orgId places t

namespace Alike

variable {orgId : String} {places : String → Bool} {s t : σ}

theorem empty : Alike orgId places (Store.empty : σ) Store.empty :=
  have none : Owns orgId places (Store.empty : σ) := by simp [Owns, items_empty]
  ⟨rfl, rfl, none, none⟩

theorem filter_owner (h : Alike orgId places s t) :
    (items s).filter (fun x => owner x == orgId) =
      (items t).filter fun x => owner x == orgId := by
  rw [h.left.filter_owner, h.right.filter_owner, h.view]

/-- Two flows are saved of which the organization may see the same. -/
theorem saveFlow (h : Alike orgId places s t) {f g : Flow}
    (same : shown (σ := σ) orgId (item f) = shown orgId (item g))
    (left : f.orgId = orgId → places f.id = true) (right : g.orgId = orgId → places g.id = true) :
    Alike orgId places (Store.saveFlow f s) (Store.saveFlow g t) := by
  have hid : f.id = g.id := by
    have hkeys := congrArg Prod.fst same
    rwa [shown, shown, key_item, key_item] at hkeys
  refine ⟨?_, ?_, h.left.saveFlow left, h.right.saveFlow right⟩
  · rw [ledger_saveFlow, ledger_saveFlow, h.ledger]
  · rw [view_saveFlow, view_saveFlow, hid, same, h.view]

/-- A flow is saved of which the organization may see nothing. -/
theorem saveFlow_left (h : Alike orgId places s t) {flow : Flow} (foreign : flow.orgId ≠ orgId)
    (aside : places flow.id = false) : Alike orgId places (Store.saveFlow flow s) t := by
  refine ⟨(ledger_saveFlow flow s).trans h.ledger, ?_,
    h.left.saveFlow fun own => absurd own foreign, h.right⟩
  rw [view_saveFlow, aside, if_neg Bool.false_ne_true, h.view]

/-- A run is recorded in both, or in none for the same reason. -/
theorem recordRun (h : Alike orgId places s t) (run : Run) :
    (∃ problem, Store.recordRun run s = .error problem ∧
      Store.recordRun run t = .error problem) ∨
    ∃ s' t', Store.recordRun run s = .ok s' ∧ Store.recordRun run t = .ok t' ∧
      Alike orgId places s' t' := by
  rcases recordRun_congr h.ledger run with hfailed | ⟨s', t', hs, ht, hledger, hleft, hright⟩
  · exact .inl hfailed
  · refine .inr ⟨s', t', hs, ht, hledger, ?_, ?_, ?_⟩
    · have hview := h.view
      unfold PartedStore.view at hview ⊢
      rw [hleft, hright, hview]
    · rw [Owns, hleft]
      exact h.left
    · rw [Owns, hright]
      exact h.right

end Alike

end PartedStore

end Dunning
