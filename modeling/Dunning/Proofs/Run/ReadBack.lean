import Dunning.Run.Codec
import Dunning.Proofs.Flow.ReadBack

/-!
# Records that are read back

The codecs of events and of runs are lawful, and their values fit everywhere. So whatever text
they are read from, their own text is read as the same value; so is that of a flow as long as
the values of its conditions allow it.
-/
namespace Dunning

section

variable {need : Nat}

theorem Event.codec_lawful : Event.codec.Lawful (need + 2) fun _ _ => True :=
  (Codec.Lawful.record (.cons (.required "orgId" .string) (.cons (.required "eventType" .string)
    (.cons (.optional "invoiceId" .string fun _ => by simp [Codec.string])
      (.cons (.optional "contactId" .string fun _ => by simp [Codec.string])
        (.cons (.optional "amount" .float fun _ => by simp [Codec.float])
          (.cons (.optional "daysOverdue" (.integer (by decide) (by decide) "i64") fun _ => by
              simp [Codec.integer, Json.int])
            (.cons (.optional "contactTags" (.list .string) fun _ => by simp [Codec.list])
              (.cons (.optional "language" .string fun _ => by simp [Codec.string]) .done
                (by decide)) (by decide)) (by decide)) (by decide)) (by decide)) (by decide))
    (by decide)) (by decide)) (fun _ => rfl) fun _ => rfl).congr (by simp)

theorem StepAction.codec_lawful : StepAction.codec.Lawful need fun _ _ => True :=
  .choice fun a => by cases a <;> rfl

theorem RunStatus.codec_lawful : RunStatus.codec.Lawful need fun _ _ => True :=
  .choice fun s => by cases s <;> rfl

theorem RunSource.codec_lawful : RunSource.codec.Lawful need fun _ _ => True :=
  .choice fun s => by cases s <;> rfl

theorem Step.codec_lawful : Step.codec.Lawful (need + 1) fun _ _ => True :=
  (Codec.Lawful.record (.cons (.required "nodeId" .string)
    (.cons (.optional "nodeKind" NodeKind.codec_lawful fun _ => by simp [NodeKind.codec, Codec.choice])
      (.cons (.required "action" StepAction.codec_lawful) (.cons (.required "detail" .string)
        (.cons (.required "timestamp" .timestamp) .done (by decide)) (by decide)) (by decide))
      (by decide)) (by decide)) (fun _ => rfl) fun _ => rfl).congr (by simp)

theorem ResumePoint.codec_lawful : ResumePoint.codec.Lawful (need + 1) fun _ _ => True :=
  (Codec.Lawful.record (.cons (.required "nodeId" .string) (.cons (.required "resumeAt" .timestamp) .done
    (by decide)) (by decide)) (fun _ => rfl) fun _ => rfl).congr (by simp)

theorem Run.codec_lawful : Run.codec.Lawful (need + 3) fun _ _ => True :=
  (Codec.Lawful.record (.cons (.required "id" .string) (.cons (.required "flowId" .string)
    (.cons (.required "orgId" .string) (.cons (.required "triggeredBy" RunSource.codec_lawful)
      (.cons (.required "triggerEvent" Event.codec_lawful)
        (.cons (.required "status" RunStatus.codec_lawful) (.cons (.required "startedAt" .timestamp)
          (.cons (.optional "completedAt" .timestamp fun _ => by simp [Codec.timestamp])
            (.cons (.required "log" (.list Step.codec_lawful))
              (.cons (.listed "pending" ResumePoint.codec_lawful) .done
                (by decide)) (by decide)) (by decide)) (by decide)) (by decide)) (by decide))
      (by decide)) (by decide)) (by decide)) (by decide)) (fun _ => rfl) fun _ => rfl).congr (by simp)

end

/-! ## Texts -/

theorem Step.numbers_write (step : Step) : (Step.codec.write step).numbers = [] := by
  obtain ⟨nodeId, kind, action, detail, timestamp⟩ := step
  cases kind <;> rfl

theorem ResumePoint.numbers_write (point : ResumePoint) : (ResumePoint.codec.write point).numbers = [] :=
  rfl

/-- A list of values without numbers is written without floats. -/
theorem Codec.floatsReadBack_list {α : Type} {codec : Codec α} (h : ∀ a, (codec.write a).numbers = [])
    (values : List α) : (codec.list.write values).FloatsReadBack := by
  intro x hx
  have hnumbers : (codec.list.write values).numbers = (values.map codec.write).flatMap Json.numbers :=
    Json.numbers_array _
  simp [hnumbers, h] at hx

/-- Reading an event back leaves its organization, which is not blank. -/
theorem Event.parse_text {text : String} {event : Event} (accepted : Event.parse text = .ok event)
    (floats : (Event.codec.write event).FloatsReadBack) :
    Event.parse (Event.codec.text event) = .ok event := by
  obtain ⟨event', hread, horg⟩ := bind_eq_ok.1 accepted
  split_ifs at horg with hblank
  cases horg
  have hcodec : Event.codec.parse text = .ok event := by
    cases hparse : Event.codec.parse text with
    | error problem =>
      rw [hparse] at hread
      cases hread
    | ok found =>
      rw [hparse] at hread
      cases hread
      rfl
  have hroom : 0 + 2 ≤ Doc.maxDepth := by decide
  have hback := (Event.codec_lawful.parse_own_text hroom hcodec floats).1 trivial
  unfold Event.parse
  rw [hback]
  exact if_neg hblank

/-- Whatever text they were read from, events, runs, steps and resume points are read back from
their own texts. A flow is read back from its own text when the values of its conditions are
restorable, which they are unless its first text has embedded texts; and refused when they are not. -/
theorem accepted_read_back (text : String) :
    (∀ flow, Flow.codec.parse text = .ok flow → (Flow.codec.write flow).FloatsReadBack →
      Yields flow.Restorable (Flow.codec.parse (Flow.codec.text flow)) flow ∧
        (Doc.embeddingKey ∉ (Doc.parse text).1.keys → flow.Restorable)) ∧
    (∀ event, Event.parse text = .ok event → (Event.codec.write event).FloatsReadBack →
      Event.parse (Event.codec.text event) = .ok event) ∧
    (∀ run, Run.codec.parse text = .ok run → (Run.codec.write run).FloatsReadBack →
      Run.codec.parse (Run.codec.text run) = .ok run) ∧
    (∀ steps, Step.codec.list.parse text = .ok steps →
      Step.codec.list.parse (Step.codec.list.text steps) = .ok steps) ∧
    ∀ points, ResumePoint.codec.list.parse text = .ok points →
      ResumePoint.codec.list.parse (ResumePoint.codec.list.text points) = .ok points := by
  refine ⟨fun flow accepted floats => ?_, fun _ => Event.parse_text, fun run accepted floats => ?_,
    fun steps accepted => ?_, fun points accepted => ?_⟩
  · have hroom : 0 + 7 ≤ Doc.maxDepth := by decide
    exact ⟨Flow.codec_lawful.parse_own_text hroom accepted floats,
      Flow.codec_lawful.fits_of_parse hroom accepted⟩
  · exact (Run.codec_lawful.parse_own_text (show 0 + 3 ≤ Doc.maxDepth by decide) accepted floats).1 trivial
  · have hlawful : Step.codec.list.Lawful (0 + 2) fun _ _ => True :=
      (Codec.Lawful.list Step.codec_lawful).congr (by simp)
    exact (hlawful.parse_own_text (by decide) accepted
      (Codec.floatsReadBack_list Step.numbers_write steps)).1 trivial
  · have hlawful : ResumePoint.codec.list.Lawful (0 + 2) fun _ _ => True :=
      (Codec.Lawful.list ResumePoint.codec_lawful).congr (by simp)
    exact (hlawful.parse_own_text (by decide) accepted
      (Codec.floatsReadBack_list ResumePoint.numbers_write points)).1 trivial

/-! ## Texts of other programs -/

namespace Specimen

/-- A flow without positions and edges, with its entries in an order of its own. -/
def flowJson (value : Json) : Json :=
  .object [("status", .string "ACTIVE"), ("nodes", .array [.object [
      ("data", .object [("branches", .array [.object [("id", .string "b"), ("name", .string "B"),
        ("condition", .object [("operator", .string "contains"), ("value", value),
          ("field", .string "tag")])]])]),
      ("type", .string "switch"), ("id", .string "s")]]),
    ("name", .string "Flow"), ("id", .string "f"), ("orgId", .string "org")]

def flow (value : Json) : Flow :=
  ⟨"f", "org", "Flow", .active,
    [⟨"s", .origin, .switch [⟨"b", "B", ⟨"tag", .contains, value⟩⟩]⟩], [], none⟩

def eventJson : Json :=
  .object [("eventType", .string "Payment Failed"), ("orgId", .string "org"), ("amount", .int 1500),
    ("contactTags", .array [.string "ü\n"]), ("language", .null)]

def event : Event :=
  ⟨"org", "Payment Failed", none, none, some (.ofInt 1500), none, some ["ü\n"], none⟩

def stepJson : Json :=
  .object [("timestamp", .string "+10000-01-01T02:00:00.001+02:00"), ("detail", .string "over"),
    ("nodeId", .string "w"), ("action", .string "waited")]

/-- A step in the year 10000. -/
def step : Step := ⟨"w", none, .waited, "over", ⟨253402300800, 1000000, by decide⟩⟩

/-- The leap second at the end of 2016. -/
def leap : Instant := ⟨1483228799, 1000000000, by decide⟩

def pointJson : Json := .object [("resumeAt", .string "2016-12-31 23:59:60z"), ("nodeId", .string "w")]

def point : ResumePoint := ⟨"w", leap⟩

def runJson : Json :=
  .object [("log", .array [stepJson]), ("triggerEvent", eventJson), ("id", .string "r"),
    ("flowId", .string "f"), ("orgId", .string "org"), ("triggeredBy", .string "event"),
    ("status", .string "COMPLETED"), ("startedAt", .string "2016-12-31T23:59:60Z")]

def run : Run := ⟨"r", "f", "org", .event, event, .completed, leap, none, [step], []⟩

end Specimen

namespace Specimen

/-- The numbers in these values and their texts. -/
def numbers : List Number := [.int 1500, .float (.zero false), .float (.ofInt 1500)]

theorem inRange {j : Json} (h : j.numbers ⊆ numbers) : j.InRange := by
  intro n hn
  have hmem := h hn
  simp only [numbers, List.mem_cons, List.not_mem_nil, or_false] at hmem
  rcases hmem with hn | hn | hn <;> rw [hn]
  · exact ⟨by decide, by decide⟩
  · trivial
  · trivial

theorem floatsReadBack {j : Json} (h : j.numbers ⊆ numbers) : j.FloatsReadBack := by
  have hzero : (Binary64.zero false).ReadsBack := by
    unfold Binary64.ReadsBack
    decide +kernel
  have hamount : (Binary64.ofInt 1500).ReadsBack := by
    unfold Binary64.ReadsBack
    decide +kernel
  intro x hx
  have hmem := h hx
  simp only [numbers, List.mem_cons, List.not_mem_nil, or_false, reduceCtorEq, false_or,
    Number.float.injEq] at hmem
  rcases hmem with hx | hx
  · exact hx ▸ hzero
  · exact hx ▸ hamount

theorem parse_text {α : Type} (codec : Codec α) {j : Json} (h : j.numbers ⊆ numbers) :
    codec.parse j.text = codec.read .direct (j.doc Doc.maxDepth) :=
  codec.parse_text (inRange h) (floatsReadBack h)

end Specimen

section

open Specimen

theorem accepted_read_back_specimens :
    Flow.codec.parse (Flow.codec.text (flow (.object [("a", .null), ("b", .array [.string "é"])]))) =
        .ok (flow (.object [("a", .null), ("b", .array [.string "é"])])) ∧
      Event.parse (Event.codec.text event) = .ok event ∧
      Run.codec.parse (Run.codec.text run) = .ok run ∧
      Step.codec.list.parse (Step.codec.list.text [step]) = .ok [step] ∧
      ResumePoint.codec.list.parse (ResumePoint.codec.list.text [point]) = .ok [point] := by
  refine ⟨?_, ?_, ?_, ?_, ?_⟩
  · have hnumbers :
        (flowJson (.object [("b", .array [.string "é"]), ("a", .null)])).numbers ⊆ numbers := by
      decide +kernel
    have haccepted : Flow.codec.parse (flowJson (.object [("b", .array [.string "é"]), ("a", .null)])).text =
        .ok (flow (.object [("a", .null), ("b", .array [.string "é"])])) := by
      rw [parse_text _ hnumbers]
      rfl
    obtain ⟨hyields, hplain⟩ := (accepted_read_back _).1 _ haccepted (floatsReadBack (by decide +kernel))
    refine hyields.1 (hplain ?_)
    rw [Json.parse_text (inRange hnumbers) (floatsReadBack hnumbers)]
    decide +kernel
  · refine (accepted_read_back eventJson.text).2.1 event ?_ (floatsReadBack (by decide +kernel))
    rw [Event.parse, parse_text _ (by decide +kernel)]
    decide +kernel
  · refine (accepted_read_back runJson.text).2.2.1 run ?_ (floatsReadBack (by decide +kernel))
    rw [parse_text _ (by decide +kernel)]
    decide +kernel
  · refine (accepted_read_back (Json.array [stepJson]).text).2.2.2.1 [step] ?_
    rw [parse_text _ (by decide +kernel)]
    decide +kernel
  · refine (accepted_read_back (Json.array [pointJson]).text).2.2.2.2 [point] ?_
    rw [parse_text _ (by decide +kernel)]
    decide +kernel

/-- Behind another key, the key that stands for an embedded text is read as any other. Sorted, it comes
first, and the text of the flow is refused. -/
theorem embedding_key_refused :
    Flow.codec.parse (flowJson (.object [("a", .null), (Doc.embeddingKey, .string "2")])).text =
        .ok (flow (.object [(Doc.embeddingKey, .string "2"), ("a", .null)])) ∧
      (Flow.codec.write (flow (.object [(Doc.embeddingKey, .string "2"), ("a", .null)]))).FloatsReadBack ∧
      Flow.codec.parse (Flow.codec.text (flow (.object [(Doc.embeddingKey, .string "2"), ("a", .null)]))) =
        .error (.wrongLength 2 "1 element in map") := by
  have hnumbers : (Flow.codec.write
      (flow (.object [(Doc.embeddingKey, .string "2"), ("a", .null)]))).numbers ⊆ numbers := by
    decide +kernel
  refine ⟨?_, floatsReadBack hnumbers, ?_⟩
  · rw [parse_text _ (by decide +kernel)]
    rfl
  · rw [Codec.text, parse_text _ hnumbers]
    rfl

end

end Dunning
