import Dunning.Proofs.Engine.Prediction
import Dunning.Proofs.Store.Tenancy

/-!
# Organizations side by side

Flows are saved for many organizations, and one of them has its events handled and its
flows executed. What comes of that depends on the flows of the others only through their
ids: if none of these is an id of its own, the others might as well not be there, and in
any case it does not matter what flows they are. An organization that saves a flow under
the id of another's takes it from there.
-/
namespace Dunning

/-- What is asked of an engine and its store. -/
inductive Job where
  | save (flow : Flow)
  | execute (w : Surroundings) (clock : Instant) (orgId flowId : String) (mode : Mode) (event : Event)
  | handle (w : Surroundings) (clock : Instant) (mode : Mode) (event : Event)

/-- What is heard of an execution or of the handling of an event. -/
inductive JobReport where
  | executed (answer : Except EngineProblem (List Step)) (deeds : List Deed)
  | handled (answer : Except EngineProblem (List String)) (deeds : List Deed)

namespace Job

/-- The organization on behalf of which something is done. -/
def orgId : Job → String
  | save flow => flow.orgId
  | execute _ _ orgId _ _ _ => orgId
  | handle _ _ _ event => event.orgId

def isSave : Job → Bool
  | save _ => true
  | _ => false

/-- Whether a job saves a flow of an organization under an id. -/
def saves (orgId flowId : String) : Job → Bool
  | save flow => flow.orgId == orgId && flow.id == flowId
  | _ => false

variable {σ : Type} [Store σ]

/-- Do what is asked, and report what others may hear of it. -/
def perform (e : Engine) (r : Records σ) : Job → List JobReport × Records σ
  | save flow => ([], { r with store := Store.saveFlow flow r.store })
  | execute w clock orgId flowId mode event =>
      let o := e.execute w clock orgId flowId mode event r
      ([.executed o.answer o.deeds], o.records)
  | handle w clock mode event =>
      let o := e.fanOut w clock mode event r
      ([.handled o.answer o.deeds], o.records)

/-- Do all that is asked, one after the other. -/
def performAll (e : Engine) : List Job → Records σ → List JobReport × Records σ
  | [], r => ([], r)
  | job :: rest, r =>
      let first := job.perform e r
      let others := performAll e rest first.2
      (first.1 ++ others.1, others.2)

end Job

variable {σ : Type} [Store σ]

/-- Two outcomes of jobs that are the same for an organization, together with all that the store will
tell it of flows and of runs. -/
structure SameFor (orgId : String) (p q : List JobReport × Records σ) : Prop where
  reports : p.1 = q.1
  getFlow : ∀ flowId, Store.getFlow orgId flowId p.2.store = Store.getFlow orgId flowId q.2.store
  activeFlows : Store.activeFlows orgId p.2.store = Store.activeFlows orgId q.2.store
  getRun : ∀ runId, Store.getRun runId p.2.store = Store.getRun runId q.2.store
  listRuns : ∀ flowId, Store.listRuns flowId p.2.store = Store.listRuns flowId q.2.store

variable [PartedStore σ] {A : String} {places : String → Bool} {r r' : Records σ}

/-- Records that an organization cannot tell apart. -/
structure Records.Alike (A : String) (places : String → Bool) (r r' : Records σ) : Prop where
  store : PartedStore.Alike A places r.store r'.store
  named : r.named = r'.named

/-- Outcomes that an organization cannot tell apart. -/
structure Outcome.Alike {α : Type} (A : String) (places : String → Bool) (o o' : Outcome σ α) :
    Prop where
  answer : o.answer = o'.answer
  deeds : o.deeds = o'.deeds
  records : o.records.Alike A places o'.records

namespace Records.Alike

theorem findFlow_eq (h : r.Alike A places r') (w : Surroundings) (flowId : String) :
    w.findFlow A flowId r.store = w.findFlow A flowId r'.store := by
  rw [Surroundings.findFlow, Surroundings.findFlow,
    PartedStore.getFlow_congr h.store.filter_owner flowId]

theorem findFlows_eq (h : r.Alike A places r') (w : Surroundings) :
    w.findFlows A r.store = w.findFlows A r'.store := by
  rw [Surroundings.findFlows, Surroundings.findFlows,
    PartedStore.activeFlows_congr h.store.filter_owner]

/-- A run is written to both stores, or to none for the same reason. -/
theorem record (h : r.Alike A places r') (w : Surroundings) (run : Run) :
    (∃ problem, w.record run r.store = .error problem ∧ w.record run r'.store = .error problem) ∨
    ∃ s t, w.record run r.store = .ok s ∧ w.record run r'.store = .ok t ∧
      PartedStore.Alike A places s t := by
  unfold Surroundings.record
  cases w.recordRun run with
  | refused problem => exact .inl ⟨_, rfl, rfl⟩
  | crashed => exact .inl ⟨_, rfl, rfl⟩
  | delivered =>
    rcases h.store.recordRun run with ⟨problem, hs, ht⟩ | ⟨s, t, hs, ht, halike⟩
    · exact .inl ⟨.store problem, by rw [hs]; rfl, by rw [ht]; rfl⟩
    · exact .inr ⟨s, t, by rw [hs]; rfl, by rw [ht]; rfl, halike⟩

/-- Runs of the same flow come to the same. -/
theorem runFlow (h : r.Alike A places r') (e : Engine) (w : Surroundings) (clock : Instant)
    (flow : Flow) (event : Event) (mode : Mode) (source : RunSource) :
    (e.runFlow w clock flow event mode source r).Alike A places
      (e.runFlow w clock flow event mode source r') := by
  unfold Engine.runFlow
  rw [← h.named]
  rcases h.record w (e.draft flow event mode source (e.runId (r.named + 1)) clock).run with
    ⟨problem, hs, ht⟩ | ⟨s, t, hs, ht, halike⟩
  · simp only [hs, ht]
    exact ⟨rfl, rfl, h.store, rfl⟩
  · simp only [hs, ht]
    exact ⟨rfl, rfl, halike, rfl⟩

theorem execute (h : r.Alike A places r') (e : Engine) (w : Surroundings) (clock : Instant)
    (flowId : String) (mode : Mode) (event : Event) :
    (e.execute w clock A flowId mode event r).Alike A places
      (e.execute w clock A flowId mode event r') := by
  unfold Engine.execute
  rw [← h.findFlow_eq]
  split
  · exact ⟨rfl, rfl, h⟩
  · exact ⟨rfl, rfl, h⟩
  · rename_i flow _
    obtain ⟨hanswer, hdeeds, hrecords⟩ := h.runFlow e w clock flow event mode .manual
    exact ⟨congrArg (Except.map Run.log) hanswer, hdeeds, hrecords⟩

/-- Flows are executed in turn, each in records that look the same. -/
theorem attempt (h : r.Alike A places r') (e : Engine) (w : Surroundings) (clock : Instant)
    (event : Event) (mode : Mode) (flows : List Flow) :
    (e.attempt w clock event mode flows r).answers = (e.attempt w clock event mode flows r').answers ∧
      (e.attempt w clock event mode flows r).deeds = (e.attempt w clock event mode flows r').deeds ∧
      (e.attempt w clock event mode flows r).records.Alike A places
        (e.attempt w clock event mode flows r').records := by
  induction flows generalizing r r' with
  | nil => exact ⟨rfl, rfl, h⟩
  | cons flow rest ih =>
    obtain ⟨hanswer, hdeeds, hrecords⟩ := h.runFlow e w clock flow event mode .event
    obtain ⟨hanswers, hothers, hlast⟩ := ih hrecords
    simp only [Engine.attempt]
    exact ⟨by rw [hanswer, hanswers], by rw [hdeeds, hothers], hlast⟩

theorem fanOut (h : r.Alike A places r') (e : Engine) (w : Surroundings) (clock : Instant)
    (mode : Mode) {event : Event} (own : event.orgId = A) :
    (e.fanOut w clock mode event r).Alike A places (e.fanOut w clock mode event r') := by
  unfold Engine.fanOut
  rw [own, ← h.findFlows_eq]
  split
  · exact ⟨rfl, rfl, h⟩
  · rename_i flows _
    obtain ⟨hanswers, hdeeds, hrecords⟩ :=
      h.attempt e w clock event mode (e.settings.matcher.select flows event)
    exact ⟨by dsimp only; rw [hanswers], by dsimp only; rw [hdeeds, hanswers], hrecords⟩

end Records.Alike

/-- Lists of jobs between which an organization sees no difference. All is done on its behalf but the
saving of flows, and these are the same, or have the same id and belong to others, or belong to
others and have an id that it does not see. -/
inductive Indistinct (A : String) (places : String → Bool) : List Job → List Job → Prop where
  | nil : Indistinct A places [] []
  | same {jobs others : List Job} (job : Job) (own : job.isSave = false → job.orgId = A)
      (seen : ∀ flow, job = .save flow → flow.orgId = A → places flow.id = true)
      (rest : Indistinct A places jobs others) : Indistinct A places (job :: jobs) (job :: others)
  | retold {jobs others : List Job} (f g : Flow) (foreign : f.orgId ≠ A) (foreign' : g.orgId ≠ A)
      (id : f.id = g.id) (rest : Indistinct A places jobs others) :
      Indistinct A places (.save f :: jobs) (.save g :: others)
  | dropped {jobs others : List Job} (flow : Flow) (foreign : flow.orgId ≠ A)
      (unseen : places flow.id = false) (rest : Indistinct A places jobs others) :
      Indistinct A places (.save flow :: jobs) others

/-- One job is reported alike, and leaves records that look the same. -/
theorem Records.Alike.perform (h : r.Alike A places r') (e : Engine) {job : Job}
    (own : job.isSave = false → job.orgId = A)
    (seen : ∀ flow, job = .save flow → flow.orgId = A → places flow.id = true) :
    (job.perform e r).1 = (job.perform e r').1 ∧
      (job.perform e r).2.Alike A places (job.perform e r').2 := by
  cases job with
  | save flow =>
    exact ⟨rfl, h.store.saveFlow rfl (seen flow rfl) (seen flow rfl), h.named⟩
  | execute w clock orgId flowId mode event =>
    obtain rfl : orgId = A := own rfl
    obtain ⟨hanswer, hdeeds, hrecords⟩ := h.execute e w clock flowId mode event
    exact ⟨by simp only [Job.perform, hanswer, hdeeds], hrecords⟩
  | handle w clock mode event =>
    obtain ⟨hanswer, hdeeds, hrecords⟩ := h.fanOut e w clock mode (own rfl)
    exact ⟨by simp only [Job.perform, hanswer, hdeeds], hrecords⟩

/-- Jobs between which no difference is seen are reported alike to the end. -/
theorem Indistinct.performAll {jobs others : List Job} (h : Indistinct A places jobs others)
    (e : Engine) (alike : r.Alike A places r') :
    (Job.performAll e jobs r).1 = (Job.performAll e others r').1 ∧
      (Job.performAll e jobs r).2.Alike A places (Job.performAll e others r').2 := by
  induction h generalizing r r' with
  | nil => exact ⟨rfl, alike⟩
  | same job own seen rest ih =>
    obtain ⟨hfirst, hafter⟩ := alike.perform e own seen
    obtain ⟨hothers, hlast⟩ := ih hafter
    exact ⟨by rw [Job.performAll, Job.performAll, hfirst, hothers], hlast⟩
  | retold f g foreign foreign' id rest ih =>
    have hshown : PartedStore.shown (σ := σ) A (PartedStore.item f) =
        PartedStore.shown A (PartedStore.item g) := by
      simp only [PartedStore.shown, PartedStore.key_item, PartedStore.owner_item, id, foreign,
        foreign', if_false]
    exact ih ⟨alike.store.saveFlow hshown (fun own => absurd own foreign)
      fun own => absurd own foreign', alike.named⟩
  | dropped flow foreign unseen rest ih =>
    exact ih ⟨alike.store.saveFlow_left foreign unseen, alike.named⟩

/-- Records that look the same tell an organization the same. -/
theorem Records.Alike.sameFor {p q : List JobReport × Records σ} (reports : p.1 = q.1)
    (h : p.2.Alike A places q.2) : SameFor A p q where
  reports := reports
  getFlow := PartedStore.getFlow_congr h.store.filter_owner
  activeFlows := PartedStore.activeFlows_congr h.store.filter_owner
  getRun := PartedStore.getRun_congr h.store.ledger
  listRuns := PartedStore.listRuns_congr h.store.ledger

/-- Whether no flow of another organization is saved under an id under which one of the organization
is saved. -/
def Job.Apart (A : String) (jobs : List Job) : Prop :=
  ∀ f g, .save f ∈ jobs → .save g ∈ jobs → f.orgId = A → g.orgId ≠ A → g.id ≠ f.id

/-- The same job, or another flow of others saved under the same id. -/
def Job.Retold (A : String) (job other : Job) : Prop :=
  other = job ∨ ∃ f g, job = .save f ∧ other = .save g ∧ f.orgId ≠ A ∧ g.orgId ≠ A ∧ f.id = g.id

namespace Indistinct

/-- The jobs of others may be left out if they are apart. -/
theorem own_jobs {jobs : List Job} (own : ∀ job ∈ jobs, job.isSave = false → job.orgId = A)
    (seen : ∀ flow, .save flow ∈ jobs → flow.orgId = A → places flow.id = true)
    (unseen : ∀ flow, .save flow ∈ jobs → flow.orgId ≠ A → places flow.id = false) :
    Indistinct A places jobs (jobs.filter fun job => job.orgId == A) := by
  induction jobs with
  | nil => exact .nil
  | cons job rest ih =>
    have hrest := ih (fun other hother => own other (List.mem_cons_of_mem job hother))
      (fun flow hflow => seen flow (List.mem_cons_of_mem job hflow))
      fun flow hflow => unseen flow (List.mem_cons_of_mem job hflow)
    by_cases hjob : job.orgId = A
    · rw [List.filter_cons_of_pos (by simpa using hjob)]
      refine .same job (fun _ => hjob) (fun flow hsave => ?_) hrest
      exact seen flow (hsave ▸ List.mem_cons_self)
    · rw [List.filter_cons_of_neg (by simpa using hjob)]
      cases job with
      | save flow => exact .dropped flow hjob (unseen flow List.mem_cons_self hjob) hrest
      | execute w clock orgId flowId mode event =>
        exact absurd (own _ List.mem_cons_self rfl) hjob
      | handle w clock mode event => exact absurd (own _ List.mem_cons_self rfl) hjob

/-- It does not matter what the flows of others are. -/
theorem retold_jobs {jobs others : List Job}
    (own : ∀ job ∈ jobs, job.isSave = false → job.orgId = A)
    (retold : List.Forall₂ (Job.Retold A) jobs others) :
    Indistinct A (fun _ => true) jobs others := by
  induction retold with
  | nil => exact .nil
  | cons hfirst hrest ih =>
    have hothers := ih fun job hjob => own job (List.mem_cons_of_mem _ hjob)
    rcases hfirst with rfl | ⟨f, g, rfl, rfl, foreign, foreign', hid⟩
    · exact .same _ (own _ List.mem_cons_self) (fun _ _ _ => rfl) hothers
    · exact .retold f g foreign foreign' hid hothers

end Indistinct

/-- What one organization has done comes to the same whatever flows are saved for others, as long as
these are apart from its own; and whatever their ids, it does not matter what else they are. -/
theorem organizations_apart (e : Engine) {jobs : List Job}
    (own : ∀ job ∈ jobs, job.isSave = false → job.orgId = A) :
    (Job.Apart A jobs → SameFor A (Job.performAll e jobs (Records.empty : Records σ))
      (Job.performAll e (jobs.filter fun job => job.orgId == A) Records.empty)) ∧
    ∀ others, List.Forall₂ (Job.Retold A) jobs others →
      SameFor A (Job.performAll e jobs (Records.empty : Records σ))
        (Job.performAll e others Records.empty) := by
  have hempty : ∀ places, (Records.empty : Records σ).Alike A places Records.empty :=
    fun places => ⟨.empty, rfl⟩
  refine ⟨fun apart => ?_, fun others retold => ?_⟩
  · have hown : ∀ id, (jobs.any fun job => job.saves A id) = true ↔
        ∃ f, .save f ∈ jobs ∧ f.orgId = A ∧ f.id = id := by
      intro id
      rw [List.any_eq_true]
      constructor
      · rintro ⟨job, hjob, hsaves⟩
        cases job with
        | save flow => exact ⟨flow, hjob, by simpa [Job.saves] using hsaves⟩
        | execute w clock orgId flowId mode event => cases hsaves
        | handle w clock mode event => cases hsaves
      · rintro ⟨f, hf, horg, hid⟩
        exact ⟨_, hf, by simp [Job.saves, horg, hid]⟩
    have hjobs : Indistinct A (fun id => jobs.any fun job => job.saves A id) jobs _ :=
      .own_jobs own (fun flow hflow horg => (hown flow.id).2 ⟨flow, hflow, horg, rfl⟩)
        fun flow hflow horg => by
          rw [Bool.eq_false_iff]
          intro htaken
          obtain ⟨f, hf, hf_own, hid⟩ := (hown flow.id).1 htaken
          exact apart f flow hf hflow hf_own horg hid.symm
    obtain ⟨hreports, hrecords⟩ := hjobs.performAll e (hempty _)
    exact hrecords.sameFor hreports
  · obtain ⟨hreports, hrecords⟩ := (Indistinct.retold_jobs own retold).performAll e (hempty _)
    exact hrecords.sameFor hreports

namespace neighbours

/-- A flow of another organization that listens for the same events. -/
def theirs : Flow := { followUp with id := "theirs", orgId := "other" }

/-- A flow in its place, of a third organization. -/
def instead : Flow := { theirs with orgId := "third", status := .paused, nodes := [], edges := [] }

/-- Another organization's flow under an id that is taken. -/
def intruder : Flow := { ledger.flow with orgId := "other" }

/-- An event of one organization, with the flow of another saved before. -/
def jobs : List Job :=
  [.save theirs, .save followUp, .handle .calm .epoch .live followUp.event]

/-- The same with a flow of a third organization. -/
def others : List Job :=
  [.save instead, .save followUp, .handle .calm .epoch .live followUp.event]

end neighbours

open neighbours in
/-- The event starts a run of the organization's own flow, with or without the others. -/
theorem organizations_apart_neighbours : Job.Apart "acme" jobs ∧
    List.Forall₂ (Job.Retold "acme") jobs others ∧
    SameFor "acme" (Job.performAll .numbered jobs (Records.empty : Records MemoryStore))
      (Job.performAll .numbered [.save followUp, .handle .calm .epoch .live followUp.event]
        Records.empty) ∧
    SameFor "acme" (Job.performAll .numbered jobs (Records.empty : Records MemoryStore))
      (Job.performAll .numbered others Records.empty) ∧
    (Store.getRun "run1" (Job.performAll .numbered jobs
      (Records.empty : Records MemoryStore)).2.store).map Run.flowId = .ok "follow-up" := by
  have hown : ∀ job ∈ jobs, job.isSave = false → job.orgId = "acme" := by
    simp [jobs, Job.isSave, Job.orgId, followUp.event]
    rfl
  have hsaved : ∀ f, .save f ∈ jobs → f = theirs ∨ f = followUp := by
    intro f hf
    simpa [jobs] using hf
  have hapart : Job.Apart "acme" jobs := by
    intro f g hf hg
    rcases hsaved f hf with rfl | rfl <;> rcases hsaved g hg with rfl | rfl <;> decide
  have hretold : List.Forall₂ (Job.Retold "acme") jobs others :=
    .cons (.inr ⟨theirs, instead, rfl, rfl, by decide, by decide, rfl⟩)
      (.cons (.inl rfl) (.cons (.inl rfl) .nil))
  obtain ⟨hsame, hothers⟩ := organizations_apart (σ := MemoryStore) .numbered hown
  exact ⟨hapart, hretold, hsame hapart, hothers _ hretold, by cbv⟩

open neighbours in
/-- Saved for another organization under the same id, a flow is not there any more. -/
theorem flow_lost_to_intruder :
    ¬SameFor "acme" (Job.performAll .numbered [.save ledger.flow, .save intruder]
        (Records.empty : Records MemoryStore))
      (Job.performAll .numbered ([.save ledger.flow, .save intruder].filter fun job =>
        job.orgId == "acme") Records.empty) ∧
    ¬SameFor "acme" (Job.performAll .numbered [.save ledger.flow, .save intruder]
        (Records.empty : Records TableStore))
      (Job.performAll .numbered ([.save ledger.flow, .save intruder].filter fun job =>
        job.orgId == "acme") Records.empty) := by
  constructor
  · intro h
    have hlost : (Except.ok none : Except StoreProblem (Option Flow)) = .ok (some ledger.flow) :=
      h.getFlow "ledger"
    cases hlost
  · intro h
    have hkept : Store.getFlow "acme" "ledger" (Job.performAll .numbered [.save ledger.flow]
        (Records.empty : Records TableStore)).2.store = .ok (some ledger.flow) := by cbv
    have hlost : Except.ok none = _ := (h.getFlow "ledger").trans hkept
    cases hlost

end Dunning
