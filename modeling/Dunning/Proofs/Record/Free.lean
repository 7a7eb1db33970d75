import Dunning.Proofs.Json.Within

/-!
# Free values that are read back

A free value comes with its objects sorted. Its document is read as the same value, unless it
is nested too deeply or an object has come to begin with the key that stands for an embedded
text: then it is refused. Neither happens to what is read from a document without that key,
since such a value is nested no deeper than its document was.
-/
namespace Dunning

/-- Whether a result is a value, if a condition holds, and a failure if not. -/
def Yields {ε α : Type} (Condition : Prop) (result : Except ε α) (a : α) : Prop :=
  (Condition → result = .ok a) ∧ (¬Condition → ∃ e, result = .error e)

namespace Yields

variable {ε α β : Type} {P Q : Prop} {result : Except ε α} {a : α}

theorem ok (a : α) : Yields True (Except.ok a : Except ε α) a :=
  ⟨fun _ => rfl, fun h => absurd trivial h⟩

theorem error (e : ε) (a : α) : Yields False (Except.error e) a := ⟨False.elim, fun _ => ⟨e, rfl⟩⟩

theorem congr (h : Yields P result a) (same : P ↔ Q) : Yields Q result a := by rwa [← same]

/-- One result after another one. -/
theorem bind (h : Yields P result a) {next : α → Except ε β} {b : β} (hnext : Yields Q (next a) b) :
    Yields (P ∧ Q) (result >>= next) b := by
  by_cases hP : P
  · rw [h.1 hP]
    exact hnext.congr (by simp [hP])
  · obtain ⟨e, he⟩ := h.2 hP
    rw [he]
    exact (error e b).congr (by simp [hP])

theorem map (h : Yields P result a) (f : α → β) : Yields P (result.map f) (f a) := by
  refine ⟨fun hP => ?_, fun hP => ?_⟩
  · rw [h.1 hP]
    rfl
  · obtain ⟨e, he⟩ := h.2 hP
    exact ⟨e, by rw [he]; rfl⟩

end Yields

/-- A sequence of results comes to a value when the first one does, and the rest from there. -/
theorem bind_eq_ok {ε α β : Type} {result : Except ε α} {next : α → Except ε β} {b : β} :
    result >>= next = .ok b ↔ ∃ a, result = .ok a ∧ next a = .ok b := by
  cases result with
  | error e => exact ⟨fun h => (nomatch h), fun ⟨_, h, _⟩ => (nomatch h)⟩
  | ok a =>
    refine ⟨fun h => ⟨a, rfl, h⟩, ?_⟩
    rintro ⟨_, ⟨⟩, hnext⟩
    exact hnext

theorem map_eq_ok {ε α β : Type} {result : Except ε α} {f : α → β} {b : β} :
    result.map f = .ok b ↔ ∃ a, result = .ok a ∧ f a = b := by
  cases result with
  | error e => exact ⟨fun h => (nomatch h), fun ⟨_, h, _⟩ => (nomatch h)⟩
  | ok a =>
    refine ⟨fun h => ⟨a, rfl, Except.ok.inj h⟩, ?_⟩
    rintro ⟨_, ⟨⟩, rfl⟩
    rfl

namespace Codec

variable {α : Type} {codec : Codec α} {mode : Reading}

theorem readItems_eq_ok {items : List Doc} {values : List α}
    (h : readItems codec mode items = .ok values) :
    ∀ v ∈ values, ∃ d ∈ items, codec.read mode d = .ok v := by
  induction items generalizing values with
  | nil =>
    cases h
    exact fun v hv => (nomatch hv)
  | cons d rest ih =>
    rw [readItems] at h
    obtain ⟨v, hv, h⟩ := bind_eq_ok.1 h
    obtain ⟨vs, hvs, h⟩ := bind_eq_ok.1 h
    cases h
    intro w hw
    rcases List.mem_cons.1 hw with rfl | hw
    · exact ⟨d, List.mem_cons_self, hv⟩
    · obtain ⟨d', hd', hw⟩ := ih hvs w hw
      exact ⟨d', List.mem_cons_of_mem d hd', hw⟩

theorem readItems_map {P : α → Prop} {docOf : α → Doc} {values : List α}
    (h : ∀ v ∈ values, Yields (P v) (codec.read mode (docOf v)) v) :
    Yields (∀ v ∈ values, P v) (readItems codec mode (values.map docOf)) values := by
  induction values with
  | nil => exact (Yields.ok []).congr (by simp)
  | cons v rest ih =>
    have hrest := ih fun w hw => h w (List.mem_cons_of_mem v hw)
    refine ((h v List.mem_cons_self).bind (hrest.bind (.ok (v :: rest)))).congr ?_
    simp

end Codec

namespace Json

/-- Whether a value is nested no deeper than there is room for, and no object begins with the key
that stands for an embedded text. -/
inductive Restorable : Nat → Json → Prop
  | null {room : Nat} : Restorable room .null
  | bool {room : Nat} {b : Bool} : Restorable room (.bool b)
  | number {room : Nat} {n : Number} : Restorable room (.number n)
  | string {room : Nat} {s : String} : Restorable room (.string s)
  | array {room : Nat} {items : List Json} (items_restorable : ∀ j ∈ items, Restorable room j) :
      Restorable (room + 1) (.array items)
  | object {room : Nat} {entries : List (String × Json)}
      (first_key : ∀ e ∈ entries.head?, e.1 ≠ Doc.embeddingKey)
      (entries_restorable : ∀ e ∈ entries, Restorable room e.2) :
      Restorable (room + 1) (.object entries)

theorem restorable_array {room : Nat} {items : List Json} :
    (array items).Restorable (room + 1) ↔ ∀ j ∈ items, j.Restorable room :=
  ⟨fun h => match h with | .array items_restorable => items_restorable, .array⟩

theorem restorable_object {room : Nat} {entries : List (String × Json)} :
    (object entries).Restorable (room + 1) ↔
      (∀ e ∈ entries.head?, e.1 ≠ Doc.embeddingKey) ∧ ∀ e ∈ entries, e.2.Restorable room :=
  ⟨fun h => match h with | .object first_key entries_restorable => ⟨first_key, entries_restorable⟩,
    fun h => .object h.1 h.2⟩

/-- Entries as reading leaves them: sorted by keys that are allowed, not all of which are the key
that stands for an embedded text. -/
structure Sorted (Allowed : String → Prop) (Value : Json → Prop) (entries : List (String × Json)) :
    Prop where
  increasing : entries.Pairwise fun e f => e.1 < f.1
  allowed : ∀ e ∈ entries, Allowed e.1
  values : ∀ e ∈ entries, Value e.2
  own : ∃ e ∈ entries, e.1 ≠ Doc.embeddingKey

/-- Values as reading leaves them: integers are in range, and objects are sorted. -/
inductive Settled : Json → Prop
  | null : Settled .null
  | bool {b : Bool} : Settled (.bool b)
  | number {n : Number} (inRange : n.InRange) : Settled (.number n)
  | string {s : String} : Settled (.string s)
  | array {items : List Json} (items_settled : ∀ j ∈ items, Settled j) : Settled (.array items)
  | empty : Settled (.object [])
  | object {entries : List (String × Json)} (increasing : entries.Pairwise fun e f => e.1 < f.1)
      (entries_settled : ∀ e ∈ entries, Settled e.2)
      (own : ∃ e ∈ entries, e.1 ≠ Doc.embeddingKey) : Settled (.object entries)

/-! ## Reading -/

theorem mem_insert {key : String} {value : Json} {entries : List (String × Json)}
    {e : String × Json} (h : e ∈ insert key value entries) : e = (key, value) ∨ e ∈ entries := by
  induction entries with
  | nil => simpa [insert] using h
  | cons f rest ih =>
    simp only [insert] at h
    split_ifs at h
    · simpa using h
    · rcases List.mem_cons.1 h with rfl | h
      · exact .inl rfl
      · exact .inr (List.mem_cons_of_mem f h)
    · rcases List.mem_cons.1 h with rfl | h
      · exact .inr List.mem_cons_self
      · exact (ih h).imp_right (List.mem_cons_of_mem f)

/-- No key is lost. -/
theorem exists_mem_insert {key : String} (value : Json) {entries : List (String × Json)}
    {e : String × Json} (h : e ∈ entries) : ∃ f ∈ insert key value entries, f.1 = e.1 := by
  induction entries with
  | nil => cases h
  | cons f rest ih =>
    simp only [insert]
    split_ifs with hbefore hsame
    · exact ⟨e, List.mem_cons_of_mem _ h, rfl⟩
    · rcases List.mem_cons.1 h with rfl | h
      · exact ⟨(key, value), List.mem_cons_self, hsame⟩
      · exact ⟨e, List.mem_cons_of_mem _ h, rfl⟩
    · rcases List.mem_cons.1 h with rfl | h
      · exact ⟨_, List.mem_cons_self, rfl⟩
      · obtain ⟨g, hg, hkey⟩ := ih h
        exact ⟨g, List.mem_cons_of_mem _ hg, hkey⟩

theorem pairwise_insert {key : String} {value : Json} {entries : List (String × Json)}
    (h : entries.Pairwise fun e f => e.1 < f.1) :
    (insert key value entries).Pairwise fun e f => e.1 < f.1 := by
  induction entries with
  | nil => exact List.pairwise_singleton _ _
  | cons f rest ih =>
    obtain ⟨hfirst, hrest⟩ := List.pairwise_cons.1 h
    simp only [insert]
    split_ifs with hbefore hsame
    · refine List.pairwise_cons.2 ⟨fun g hg => ?_, h⟩
      rcases List.mem_cons.1 hg with rfl | hg
      · exact hbefore
      · exact String.lt_trans hbefore (hfirst g hg)
    · exact List.pairwise_cons.2 ⟨fun g hg => hsame ▸ hfirst g hg, hrest⟩
    · refine List.pairwise_cons.2 ⟨fun g hg => ?_, ih hrest⟩
      rcases mem_insert hg with rfl | hg
      · refine Classical.byContradiction fun hnot => hsame ?_
        exact String.le_antisymm (String.not_lt.1 hnot) (String.not_lt.1 hbefore)
      · exact hfirst g hg

theorem Sorted.insert {Allowed : String → Prop} {Value : Json → Prop} {entries : List (String × Json)}
    (h : Sorted Allowed Value entries) {key : String} (hkey : Allowed key) {value : Json}
    (hvalue : Value value) : Sorted Allowed Value (Json.insert key value entries) where
  increasing := pairwise_insert h.increasing
  allowed e he := by
    rcases mem_insert he with rfl | he
    · exact hkey
    · exact h.allowed e he
  values e he := by
    rcases mem_insert he with rfl | he
    · exact hvalue
    · exact h.values e he
  own := by
    obtain ⟨e, he, hother⟩ := h.own
    obtain ⟨f, hf, hsame⟩ := exists_mem_insert value he
    exact ⟨f, hf, hsame ▸ hother⟩

/-- An entry behind all others is put at the end. -/
theorem insert_of_lt {key : String} {value : Json} {entries : List (String × Json)}
    (h : ∀ e ∈ entries, e.1 < key) : insert key value entries = entries ++ [(key, value)] := by
  induction entries with
  | nil => rfl
  | cons e rest ih =>
    have he := h e List.mem_cons_self
    have hbefore : ¬key < e.1 := fun hlt => String.lt_irrefl _ (String.lt_trans he hlt)
    have hsame : key ≠ e.1 := fun heq => String.lt_irrefl _ (heq ▸ he)
    have hrest := ih fun f hf => h f (List.mem_cons_of_mem e hf)
    simp [insert, hbefore, hsame, hrest]

end Json

namespace Doc

variable {embedded : String → Except Problem Json} {mode : Reading}

/-- The codec of free values, whatever embedded texts stand for. -/
def freeCodec (embedded : String → Except Problem Json) : Codec Json :=
  ⟨fun mode doc => doc.freeWith embedded mode, id⟩

/-- Items that are read as free values are read like those of any list. -/
theorem freeItems_eq (items : List Doc) :
    freeItems embedded mode items = (freeCodec embedded).readItems mode items := by
  induction items with
  | nil => rfl
  | cons d rest ih => simp only [freeItems, Codec.readItems, freeCodec, ih]

theorem freeEntries_sorted {Allowed : String → Prop} {Value : Json → Prop} {entries : List Entry}
    (hkeys : ∀ e ∈ entries, ∀ key, e.1 = .ok key → Allowed key)
    (hvalues : ∀ e ∈ entries, ∀ v, e.2.freeWith embedded mode = .ok v → Value v)
    {sorted values : List (String × Json)} (hsorted : Json.Sorted Allowed Value sorted)
    (h : freeEntries embedded mode sorted entries = .ok values) :
    Json.Sorted Allowed Value values := by
  induction entries generalizing sorted with
  | nil =>
    cases h
    exact hsorted
  | cons e rest ih =>
    obtain ⟨key, d⟩ := e
    cases key with
    | error fault => cases h
    | ok key =>
      rw [freeEntries] at h
      obtain ⟨v, hv, h⟩ := bind_eq_ok.1 h
      refine ih (fun f hf => hkeys f (List.mem_cons_of_mem _ hf))
        (fun f hf => hvalues f (List.mem_cons_of_mem _ hf)) ?_ h
      exact hsorted.insert (hkeys _ List.mem_cons_self key rfl) (hvalues _ List.mem_cons_self v hv)

/-- What is read of an object is the value of an embedded text, an empty object, or an object with
sorted entries. -/
theorem freeWith_object {Allowed : String → Prop} {Value : Json → Prop} {entries : List Entry}
    {unclosed : Option Json.Fault}
    (hkeys : ∀ e ∈ entries, ∀ key, e.1 = .ok key → Allowed key)
    (hvalues : ∀ e ∈ entries, ∀ v, e.2.freeWith embedded mode = .ok v → Value v) {j : Json}
    (h : (Doc.object entries unclosed).freeWith embedded mode = .ok j) :
    (Allowed embeddingKey ∧ ∃ text, embedded text = .ok j) ∨ j = .object [] ∨
      ∃ values, j = .object values ∧ Json.Sorted Allowed Value values := by
  cases entries with
  | nil =>
    rw [freeWith] at h
    obtain ⟨_, _, h⟩ := bind_eq_ok.1 h
    cases h
    exact .inr (.inl rfl)
  | cons e rest =>
    obtain ⟨key, d⟩ := e
    cases key with
    | error fault => cases h
    | ok key =>
      have hkey := hkeys _ List.mem_cons_self key rfl
      simp only [freeWith] at h
      split_ifs at h with hembedding
      · subst hembedding
        split at h
        next text =>
          obtain ⟨value, hvalue, h⟩ := bind_eq_ok.1 h
          obtain ⟨_, _, h⟩ := bind_eq_ok.1 h
          cases h
          exact .inl ⟨hkey, text, hvalue⟩
        next => cases h
      · obtain ⟨value, hvalue, h⟩ := bind_eq_ok.1 h
        obtain ⟨values, hread, h⟩ := bind_eq_ok.1 h
        obtain ⟨_, _, h⟩ := bind_eq_ok.1 h
        cases h
        refine .inr (.inr ⟨values, rfl, freeEntries_sorted
          (fun f hf => hkeys f (List.mem_cons_of_mem _ hf))
          (fun f hf => hvalues f (List.mem_cons_of_mem _ hf)) ?_ hread⟩)
        exact {
          increasing := List.pairwise_singleton _ _
          allowed := by simpa using hkey
          values := by simpa using hvalues _ List.mem_cons_self value hvalue
          own := by simpa using hembedding }

/-- What is read of a document is settled, when what embedded texts stand for is. -/
theorem freeWith_settled (hembedded : ∀ text j, embedded text = .ok j → j.Settled)
    {Allowed : String → Prop} {room : Nat} {doc : Doc} (h : doc.Within Allowed room) {j : Json}
    (hread : doc.freeWith embedded mode = .ok j) : j.Settled := by
  induction h generalizing j with
  | null =>
    cases hread
    exact .null
  | bool =>
    cases hread
    exact .bool
  | number inRange =>
    cases hread
    exact .number inRange
  | string =>
    cases hread
    exact .string
  | array _ ih =>
    rw [freeWith] at hread
    obtain ⟨values, hvalues, hread⟩ := bind_eq_ok.1 hread
    obtain ⟨_, _, hread⟩ := bind_eq_ok.1 hread
    cases hread
    refine .array fun v hv => ?_
    rw [freeItems_eq] at hvalues
    obtain ⟨d, hd, hv⟩ := Codec.readItems_eq_ok hvalues v hv
    exact ih d hd hv
  | object keys_allowed _ ih =>
    rcases freeWith_object keys_allowed (fun e he v hv => ih e he hv) hread with
      ⟨-, text, htext⟩ | rfl | ⟨values, rfl, hsorted⟩
    · exact hembedded text j htext
    · exact .empty
    · exact .object hsorted.increasing hsorted.values hsorted.own
  | deep | flaw => cases hread

theorem readEmbedded_settled (levels : Nat) {text : String} {j : Json}
    (h : readEmbedded levels text = .ok j) : j.Settled := by
  induction levels generalizing text j with
  | zero => cases h
  | succ levels ih =>
    simp only [readEmbedded] at h
    split at h
    · cases h
    next value hvalue =>
      split_ifs at h
      cases h
      exact freeWith_settled (fun _ _ => ih) (parse_sound text) hvalue

theorem free_settled {Allowed : String → Prop} {room : Nat} {doc : Doc} (h : doc.Within Allowed room)
    {j : Json} (hread : doc.free mode = .ok j) : j.Settled :=
  freeWith_settled (fun _ _ => readEmbedded_settled _) h hread

/-- What is read of a document without the key that stands for an embedded text is nested no deeper
than the document, and without that key itself. -/
theorem restorable_of_freeWith {room : Nat} {doc : Doc} (h : doc.Within (· ≠ embeddingKey) room)
    {j : Json} (hread : doc.freeWith embedded mode = .ok j) : j.Restorable room := by
  induction h generalizing j with
  | null =>
    cases hread
    exact .null
  | bool =>
    cases hread
    exact .bool
  | number =>
    cases hread
    exact .number
  | string =>
    cases hread
    exact .string
  | array _ ih =>
    rw [freeWith] at hread
    obtain ⟨values, hvalues, hread⟩ := bind_eq_ok.1 hread
    obtain ⟨_, _, hread⟩ := bind_eq_ok.1 hread
    cases hread
    refine .array fun v hv => ?_
    rw [freeItems_eq] at hvalues
    obtain ⟨d, hd, hv⟩ := Codec.readItems_eq_ok hvalues v hv
    exact ih d hd hv
  | object keys_allowed _ ih =>
    rcases freeWith_object keys_allowed (fun e he v hv => ih e he hv) hread with
      ⟨hkey, -⟩ | rfl | ⟨values, rfl, hsorted⟩
    · exact absurd rfl hkey
    · exact .object (by simp) (by simp)
    · exact .object (fun e he => hsorted.allowed e (List.mem_of_mem_head? he)) hsorted.values
  | deep | flaw => cases hread

/-! ## Reading back -/

theorem freeEntries_doc {room : Nat} {sorted entries : List (String × Json)}
    (h : ∀ e ∈ entries, Yields (e.2.Restorable room) ((e.2.doc room).freeWith embedded mode) e.2)
    (increasing : (sorted ++ entries).Pairwise fun e f => e.1 < f.1) :
    Yields (∀ e ∈ entries, e.2.Restorable room)
      (freeEntries embedded mode sorted (entries.map (Json.entryDoc room))) (sorted ++ entries) := by
  induction entries generalizing sorted with
  | nil =>
    rw [List.append_nil]
    exact (Yields.ok sorted).congr (by simp)
  | cons e rest ih =>
    have hlast : Json.insert e.1 e.2 sorted = sorted ++ [e] :=
      Json.insert_of_lt fun f hf => (List.pairwise_append.1 increasing).2.2 f hf e List.mem_cons_self
    have hsplit : sorted ++ e :: rest = (sorted ++ [e]) ++ rest := by simp
    rw [hsplit] at increasing ⊢
    have hrest := ih (fun f hf => h f (List.mem_cons_of_mem e hf)) increasing
    rw [← hlast] at hrest ⊢
    exact ((h e List.mem_cons_self).bind hrest).congr (by simp)

/-- The text of an embedded value must be all that its object holds. -/
theorem endEmbedding_cons (mode : Reading) (e : Entry) (rest : List Entry) :
    ∃ problem, endEmbedding mode (e :: rest) none = .error problem := by
  cases mode <;> exact ⟨_, rfl⟩

/-- A settled value is read back from its document as long as it is restorable, and else refused. -/
theorem freeWith_doc {j : Json} (h : j.Settled) (room : Nat) :
    Yields (j.Restorable room) ((j.doc room).freeWith embedded mode) j := by
  induction h generalizing room with
  | null => exact (Yields.ok Json.null).congr ⟨fun _ => .null, fun _ => trivial⟩
  | @bool b => exact (Yields.ok (Json.bool b)).congr ⟨fun _ => .bool, fun _ => trivial⟩
  | @number n => exact (Yields.ok (Json.number n)).congr ⟨fun _ => .number, fun _ => trivial⟩
  | @string s => exact (Yields.ok (Json.string s)).congr ⟨fun _ => .string, fun _ => trivial⟩
  | @array items _ ih =>
    cases room with
    | zero => exact (Yields.error _ _).congr ⟨False.elim, fun h => nomatch h⟩
    | succ room =>
      rw [Json.doc_array_succ, freeWith, Json.restorable_array]
      rw [freeItems_eq]
      have hitems : Yields (∀ j ∈ items, j.Restorable room)
          ((freeCodec embedded).readItems mode (items.map (Json.doc room))) items :=
        Codec.readItems_map fun j hj => ih j hj room
      exact (hitems.bind (.ok (Json.array items))).congr (by simp)
  | empty =>
    cases room with
    | zero => exact (Yields.error _ _).congr ⟨False.elim, fun h => nomatch h⟩
    | succ room =>
      exact (Yields.ok (Json.object [])).congr (by simp [Json.restorable_object])
  | @object entries increasing _ own ih =>
    cases room with
    | zero => exact (Yields.error _ _).congr ⟨False.elim, fun h => nomatch h⟩
    | succ room =>
      rw [Json.doc_object_succ, Json.restorable_object]
      cases entries with
      | nil =>
        obtain ⟨e, he, -⟩ := own
        cases he
      | cons e rest =>
        have he := ih e List.mem_cons_self room
        rw [List.map_cons, Json.entryDoc, freeWith.eq_def]
        simp only
        by_cases hkey : e.1 = embeddingKey
        · -- The object now stands for a text, but holds more than this text.
          have hmore : ∃ f fs, rest.map (Json.entryDoc room) = f :: fs := by
            obtain ⟨f, hf, hother⟩ := own
            rcases List.mem_cons.1 hf with rfl | hf
            · exact absurd hkey hother
            · exact List.exists_cons_of_ne_nil (by simpa using List.ne_nil_of_mem hf)
          obtain ⟨f, fs, hmore⟩ := hmore
          obtain ⟨problem, hend⟩ := endEmbedding_cons mode f fs
          rw [if_pos hkey, hmore]
          refine Yields.congr (P := False) ⟨False.elim, fun _ => ?_⟩ (by simp [hkey])
          split
          next text _ =>
            rw [hend]
            cases embedded text with
            | error e => exact ⟨e, rfl⟩
            | ok value => exact ⟨problem, rfl⟩
          next => exact ⟨_, rfl⟩
        · rw [if_neg hkey]
          have hrest : Yields (∀ f ∈ rest, f.2.Restorable room)
              (freeEntries embedded mode [e] (rest.map (Json.entryDoc room))) ([e] ++ rest) :=
            freeEntries_doc (fun f hf => ih f (List.mem_cons_of_mem e hf) room) increasing
          refine (he.bind (hrest.bind (.ok (Json.object (e :: rest))))).congr ?_
          simp [hkey]

theorem faultOfItems?_eq_none {items : List Doc} (h : ∀ d ∈ items, d.fault? = none) :
    faultOfItems? items = none := by
  induction items with
  | nil => rfl
  | cons d rest ih =>
    simp [faultOfItems?, h d List.mem_cons_self, ih fun d' hd => h d' (List.mem_cons_of_mem d hd)]

theorem faultOfEntries?_eq_none {room : Nat} {entries : List (String × Json)}
    (h : ∀ e ∈ entries, (e.2.doc room).fault? = none) :
    faultOfEntries? (entries.map (Json.entryDoc room)) = none := by
  induction entries with
  | nil => rfl
  | cons e rest ih =>
    simp [faultOfEntries?, Json.entryDoc, h e List.mem_cons_self,
      ih fun f hf => h f (List.mem_cons_of_mem e hf)]

/-- The document of a restorable value is sound as a whole. -/
theorem fault?_doc {room : Nat} {j : Json} (h : j.Restorable room) : (j.doc room).fault? = none := by
  induction h with
  | null | bool | number | string => rfl
  | array _ ih =>
    rw [Json.doc_array_succ, fault?, faultOfItems?_eq_none]
    · rfl
    · simpa using ih
  | object _ _ ih =>
    rw [Json.doc_object_succ, fault?, faultOfEntries?_eq_none ih]
    rfl

/-- A document is held back as long as it is sound as a whole. -/
theorem yields_hold (doc : Doc) : Yields (doc.fault? = none) doc.hold () := by
  unfold Doc.hold
  cases doc.fault? with
  | none => exact (Yields.ok ()).congr (by simp)
  | some fault => exact (Yields.error _ ()).congr (by simp)

end Doc

end Dunning
