import Dunning.Proofs.Engine.Alone
import Dunning.Proofs.Engine.PrefixChain

/-!
# No double enrollment

However many callers execute flows and resume runs, whatever they take for the time,
however their stages interleave and however flows are edited in between, no node of a
run is entered twice, and the dispatcher is not called twice for a node of a run.
-/
namespace Dunning

namespace World

variable {σ : Type} [Store σ]

/-- The versions of a run are a chain that ends with the stored one. In each of them nothing but a
skip happens twice at a node. The dispatcher is called at most once for a node, and only by a call
that has written the run which it serves. -/
theorem no_double_enrollment [LawfulStore σ] {W : World σ} (h : W.Reachable) (runId : String) :
    (W.versions runId).Pairwise (fun earlier later => earlier.log <+: later.log) ∧
    (∀ run, Store.getRun runId W.store = .ok run →
      (W.versions runId).getLast?.map Run.log = some run.log) ∧
    (∀ run ∈ W.versions runId, ∀ action ≠ StepAction.skipped, ∀ nodeId,
      entries action nodeId run.log ≤ 1) ∧
    (∀ nodeId, (W.requests.map DispatchRequest.key).count (runId, nodeId) ≤ 1) ∧
    ∀ before caller act, before ++ [.acted caller act] <+: W.trace →
      ∃ run, .wrote caller run ∈ before ∧ act.Serves run := by
  have hsound := sound_of_reachable h
  refine ⟨hsound.chain runId, fun run hrun => (hsound.told runId run hrun).2, ?_, ?_, hsound.order⟩
  · intro run hrun action haction nodeId
    exact ((hsound.once runId).of_longer (hsound.grows runId run hrun)).once action nodeId haction
  · intro nodeId
    have hbudget := hsound.budget runId nodeId
    have honce := (hsound.once runId).once .enqueued nodeId (by decide)
    omega

/-- Enroll an hour after the event. -/
def reminder : Flow where
  id := "reminder"
  orgId := "acme"
  name := "Reminder"
  status := .active
  nodes := [.atOrigin "t" (.trigger ⟨.invoiceOverdue, .none⟩), .atOrigin "w" (.wait ⟨1, .hours⟩),
    .atOrigin "a" (.enroll ⟨"dunning", ""⟩)]
  edges := [.plain "tw" "t" "w", .plain "wa" "w" "a"]
  deletedAt := none

/-- Executed at midnight, and resumed an hour later and again after another hour. -/
theorem no_double_enrollment_reminder : ∃ W : World MemoryStore, W.Reachable ∧
    (W.versions "run1").map (fun run => run.log.map Step.nodeId) = [["t", "w"], ["t", "w", "a"]] ∧
    W.requests.map DispatchRequest.key = [("run1", "a")] ∧
    ∀ nodeId, (W.requests.map DispatchRequest.key).count ("run1", nodeId) ≤ 1 := by
  let event : Event := .ofTrigger "acme" .invoiceOverdue
  let W₀ : World MemoryStore := ⟨Store.saveFlow reminder Store.empty, [], []⟩
  have hsave : Steps start W₀ := .single (.save start reminder)
  obtain ⟨calls₁, hexecute⟩ :=
    steps_runFlow W₀ .numbered .calm .epoch reminder event .live .manual 0 rfl
  generalize hW₁ : World.mk (Engine.numbered.runFlow Surroundings.calm .epoch reminder event .live
    .manual ⟨W₀.store, 0⟩).records.store calls₁ _ = W₁ at hexecute
  obtain ⟨calls₂, hresume⟩ := steps_resumeDue W₁ .numbered .calm (.hour 1) "run1" (.hour 1) 0
  generalize hW₂ : World.mk (Engine.numbered.resumeDue Surroundings.calm (.hour 1) "run1" (.hour 1)
    none ⟨W₁.store, 0⟩).records.store calls₂ _ = W₂ at hresume
  obtain ⟨calls₃, hagain⟩ := steps_resumeDue W₂ .numbered .calm (.hour 2) "run1" (.hour 2) 0
  have hreachable := ((hsave.trans hexecute).trans hresume).trans hagain
  refine ⟨_, hreachable, ?_, ?_, (no_double_enrollment hreachable "run1").2.2.2.1⟩
  · subst hW₂ hW₁
    cbv
  · subst hW₂ hW₁
    cbv

end World

end Dunning
