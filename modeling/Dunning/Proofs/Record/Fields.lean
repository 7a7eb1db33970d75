import Dunning.Proofs.Record.Lawful

/-!
# Records that are read back

Whether a record is read from an object or from an array, each of its values comes from a
document or is the default of its field. As long as the names of the fields differ and what
is left out is the default, the entries that a record is written as fill the same slots.
-/
namespace Dunning

variable {α : Type}

/-- A field whose codec is lawful, whose default could be read as well, and which leaves out nothing
but its default. -/
structure Field.Lawful (field : Field α) (need : Nat) (Fits : Nat → α → Prop) : Prop where
  codec : field.codec.Lawful need Fits
  default {a : α} (h : field.default = some a) (Allowed : String → Prop) {room : Nat}
    (enough : need ≤ room) : field.codec.Reads Allowed room a
  omitted {a : α} (h : field.omitted a = true) : field.default = some a

namespace Field.Lawful

variable {codec : Codec α} {need : Nat} {Fits : Nat → α → Prop}

theorem required (name : String) (h : codec.Lawful need Fits) :
    (Field.required name codec).Lawful need Fits :=
  ⟨h, fun h => (nomatch h), fun h => (nomatch h)⟩

theorem defaulted (name : String) (h : codec.Lawful need Fits) {value : α}
    (readable : ∀ (Allowed : String → Prop) {room : Nat}, need ≤ room →
      codec.Reads Allowed room value) : (Field.defaulted name codec value).Lawful need Fits where
  codec := h
  default h Allowed _ enough := by
    cases h
    exact readable Allowed enough
  omitted h := nomatch h

theorem optional (name : String) (h : codec.Lawful need Fits)
    (nonnull : ∀ a, codec.write a ≠ .null) :
    (Field.optional name codec).Lawful need fun room o => ∀ a ∈ o, Fits room a where
  codec := h.nullable nonnull
  default h _ _ _ := by
    cases h
    exact ⟨.direct, .null, .null, rfl⟩
  omitted {o} h := by
    cases o with
    | none => rfl
    | some a => cases h

/-- A list that is left out when it is empty. -/
theorem listed (name : String) (h : codec.Lawful need Fits) :
    (Field.mk name codec.list (some []) List.isEmpty).Lawful (need + 1) fun room values =>
      ∀ v ∈ values, Fits (room - 1) v where
  codec := h.list
  default h Allowed _ enough := by
    cases h
    exact Codec.Lawful.list_reads_nil codec Allowed enough
  omitted {values} h := by rw [List.isEmpty_iff.1 h]

end Field.Lawful

namespace Fields

def names {σ τ : Type} : Fields σ τ → List String
  | done => []
  | cons field rest => field.name :: rest.names

/-- Whether every value is read from a document or is the default of its field. -/
def Reads {σ τ : Type} (fields : Fields σ τ) (Allowed : String → Prop) (room : Nat) (values : τ) :
    Prop :=
  match fields, values with
  | done, () => True
  | cons field rest, (value, others) =>
      (field.default = some value ∨ field.codec.Reads Allowed room value) ∧
        rest.Reads Allowed room others

/-- Whether every slot is empty or holds what is read from a document. -/
def Filled {σ τ : Type} (fields : Fields σ τ) (Allowed : String → Prop) (room : Nat) (slots : σ) :
    Prop :=
  match fields, slots with
  | done, () => True
  | cons field rest, (slot, others) =>
      (∀ value ∈ slot, field.codec.Reads Allowed room value) ∧ rest.Filled Allowed room others

/-! ## Where values come from -/

variable {σ τ : Type} {fields : Fields σ τ} {Allowed : String → Prop} {room : Nat} {mode : Reading}

theorem filled_nothing (fields : Fields σ τ) : fields.Filled Allowed room fields.nothing := by
  induction fields with
  | done => trivial
  | cons field rest ih => exact ⟨fun _ h => (nomatch h), ih⟩

theorem filled_put {name : String} {doc : Doc} {slots : σ} {next : Option σ}
    (hdoc : doc.Within Allowed room) (h : fields.Filled Allowed room slots)
    (hput : fields.put mode name doc slots = .ok next) :
    ∀ s ∈ next, fields.Filled Allowed room s := by
  induction fields with
  | done =>
    cases hput
    exact fun _ h => nomatch h
  | cons field rest ih =>
    obtain ⟨slot, others⟩ := slots
    obtain ⟨hslot, hothers⟩ := h
    simp only [put] at hput
    split_ifs at hput
    · obtain ⟨value, hvalue, hput⟩ := bind_eq_ok.1 hput
      cases hput
      rintro _ ⟨⟩
      refine ⟨?_, hothers⟩
      rintro _ ⟨⟩
      exact ⟨mode, doc, hdoc, hvalue⟩
    · obtain ⟨others', hothers', hput⟩ := bind_eq_ok.1 hput
      cases hput
      intro s hs
      obtain ⟨o, ho, rfl⟩ := Option.map_eq_some_iff.1 hs
      exact ⟨hslot, ih hothers hothers' o ho⟩

theorem filled_readEntries {entries : List Doc.Entry} {slots slots' : σ}
    (hentries : ∀ e ∈ entries, e.2.Within Allowed room) (h : fields.Filled Allowed room slots)
    (hread : fields.readEntries mode slots entries = .ok slots') :
    fields.Filled Allowed room slots' := by
  induction entries generalizing slots with
  | nil =>
    cases hread
    exact h
  | cons e rest ih =>
    obtain ⟨name, doc⟩ := e
    cases name with
    | error fault => cases hread
    | ok name =>
      rw [readEntries] at hread
      obtain ⟨next, hnext, hread⟩ := bind_eq_ok.1 hread
      refine ih (fun f hf => hentries f (List.mem_cons_of_mem _ hf)) ?_ hread
      have hput := filled_put (hentries _ List.mem_cons_self) h hnext
      cases next with
      | none => exact h
      | some s => exact hput s rfl

theorem reads_complete {slots : σ} {values : τ} (h : fields.Filled Allowed room slots)
    (hread : fields.complete slots = .ok values) : fields.Reads Allowed room values := by
  induction fields with
  | done => trivial
  | cons field rest ih =>
    obtain ⟨slot, others⟩ := slots
    obtain ⟨hslot, hothers⟩ := h
    simp only [complete] at hread
    split at hread
    · cases hread
    next value hvalue =>
      obtain ⟨others', hothers', hread⟩ := bind_eq_ok.1 hread
      cases hread
      refine ⟨?_, ih hothers hothers'⟩
      cases slot with
      | none => exact .inl hvalue
      | some a => exact .inr (hslot value (by simpa using hvalue))

theorem reads_readObject {entries : List Doc.Entry} {unclosed : Option Json.Fault} {values : τ}
    (hentries : ∀ e ∈ entries, e.2.Within Allowed room)
    (hread : fields.readObject mode entries unclosed = .ok values) :
    fields.Reads Allowed room values := by
  obtain ⟨slots, hslots, hread⟩ := bind_eq_ok.1 hread
  obtain ⟨_, _, hread⟩ := bind_eq_ok.1 hread
  exact reads_complete (filled_readEntries hentries (filled_nothing fields) hslots) hread

theorem reads_readPositions {wanted : String} {index : Nat} {items left : List Doc}
    {unclosed : Option Json.Fault} {values : τ} (hitems : ∀ d ∈ items, d.Within Allowed room)
    (hread : fields.readPositions mode wanted index items unclosed = .ok (values, left)) :
    fields.Reads Allowed room values := by
  induction fields generalizing index items left with
  | done => trivial
  | cons field rest ih =>
    cases items with
    | cons item items =>
      rw [readPositions] at hread
      obtain ⟨value, hvalue, hread⟩ := bind_eq_ok.1 hread
      obtain ⟨⟨others, left'⟩, hothers, hread⟩ := bind_eq_ok.1 hread
      cases hread
      exact ⟨.inr ⟨mode, item, hitems item List.mem_cons_self, hvalue⟩,
        ih (fun d hd => hitems d (List.mem_cons_of_mem item hd)) hothers⟩
    | nil =>
      rw [readPositions] at hread
      obtain ⟨_, _, hread⟩ := bind_eq_ok.1 hread
      split at hread
      · cases hread
      next value hvalue =>
        obtain ⟨⟨others, left'⟩, hothers, hread⟩ := bind_eq_ok.1 hread
        cases hread
        exact ⟨.inl hvalue, ih (by simp) hothers⟩

theorem reads_readArray {title : String} {items : List Doc} {unclosed : Option Json.Fault} {values : τ}
    (hitems : ∀ d ∈ items, d.Within Allowed room)
    (hread : fields.readArray mode title items unclosed = .ok values) :
    fields.Reads Allowed room values := by
  obtain ⟨⟨values', left⟩, hpositions, hread⟩ := bind_eq_ok.1 hread
  have hsame : values' = values := by
    cases mode with
    | direct =>
      cases left with
      | nil =>
        obtain ⟨_, _, hread⟩ := bind_eq_ok.1 hread
        cases hread
        rfl
      | cons => cases hread
    | held =>
      simp only at hread
      split_ifs at hread
      cases hread
      rfl
  subst hsame
  exact reads_readPositions hitems hpositions

/-! ## Reading back -/

theorem name_mem_of_mem_write {values : τ} {e : String × Json} (h : e ∈ fields.write values) :
    e.1 ∈ fields.names := by
  induction fields with
  | done => cases h
  | cons field rest ih =>
    obtain ⟨value, others⟩ := values
    rw [names, List.mem_cons]
    simp only [write] at h
    split_ifs at h
    · exact .inr (ih h)
    · rcases List.mem_cons.1 h with rfl | h
      · exact .inl rfl
      · exact .inr (ih h)

/-- Entries under other names leave the slot of a field as it is. -/
theorem readEntries_cons {field : Field α} {slot : Option α} {others : σ} {entries : List Doc.Entry}
    (h : ∀ e ∈ entries, e.1 ≠ .ok field.name) :
    (cons field fields).readEntries mode (slot, others) entries =
      (fields.readEntries mode others entries).map fun o => (slot, o) := by
  induction entries generalizing others with
  | nil => rfl
  | cons e rest ih =>
    obtain ⟨name, doc⟩ := e
    have hrest : ∀ others, (cons field fields).readEntries mode (slot, others) rest =
        (fields.readEntries mode others rest).map fun o => (slot, o) :=
      fun _ => ih fun f hf => h f (List.mem_cons_of_mem _ hf)
    cases name with
    | error fault => rfl
    | ok name =>
      have hname : field.name ≠ name := fun heq => h _ List.mem_cons_self (congrArg _ heq.symm)
      rw [readEntries, readEntries, put, if_neg hname]
      cases fields.put mode name doc others with
      | error problem => rfl
      | ok next =>
        cases next with
        | none => exact hrest others
        | some o => exact hrest o

theorem readObject_cons {field : Field α} {entries : List Doc.Entry}
    (h : ∀ e ∈ entries, e.1 ≠ .ok field.name) (doc : Doc) :
    (cons field fields).readObject mode ((.ok field.name, doc) :: entries) none = (do
      let value ← field.codec.read mode doc
      let others ← fields.readObject mode entries none
      return (value, others)) := by
  have hnothing : (cons field fields).nothing = (none, fields.nothing) := rfl
  unfold readObject
  rw [hnothing, readEntries, put, if_pos rfl]
  cases field.codec.read mode doc with
  | error problem => rfl
  | ok value =>
    show ((Fields.cons field fields).readEntries mode (some value, fields.nothing) entries >>= fun slots =>
      Doc.close none >>= fun _ => (Fields.cons field fields).complete slots) = _
    rw [readEntries_cons h]
    cases fields.readEntries mode fields.nothing entries with
    | error problem => rfl
    | ok slots =>
      show (fields.complete slots >>= fun others => pure (value, others)) = _
      cases hcomplete : fields.complete slots <;> simp [hcomplete, bind, Except.bind, Doc.close]

theorem readObject_default {field : Field α} {entries : List Doc.Entry}
    (h : ∀ e ∈ entries, e.1 ≠ .ok field.name) {value : α} (default : field.default = some value) :
    (cons field fields).readObject mode entries none =
      (fields.readObject mode entries none).map fun others => (value, others) := by
  have hnothing : (cons field fields).nothing = (none, fields.nothing) := rfl
  unfold readObject
  rw [hnothing, readEntries_cons h]
  cases fields.readEntries mode fields.nothing entries with
  | error problem => rfl
  | ok slots =>
    have hvalue : (cons field fields).complete (none, slots) =
        fields.complete slots >>= fun others => pure (value, others) := by
      simp [complete, default]
    show (Fields.cons field fields).complete (none, slots) = _
    rw [hvalue]
    cases hcomplete : fields.complete slots <;>
      simp [hcomplete, bind, Except.bind, Doc.close, Except.map, pure, Except.pure]

end Fields

/-- What is promised of the values of some fields. -/
structure Fields.Lawful {σ τ : Type} (fields : Fields σ τ) (need : Nat) (Fits : Nat → τ → Prop) :
    Prop where
  inRange {Allowed : String → Prop} {room : Nat} {values : τ} (read : fields.Reads Allowed room values) :
    ∀ e ∈ fields.write values, e.2.InRange
  returns {Allowed : String → Prop} {room : Nat} {values : τ} (read : fields.Reads Allowed room values)
    (mode : Reading) {room' : Nat} (enough : need ≤ room') :
    Yields (Fits room' values)
      (fields.readObject mode ((fields.write values).map (Json.entryDoc room')) none) values
  whole {room : Nat} {values : τ} (enough : need ≤ room) (fits : Fits room values) :
    ∀ e ∈ fields.write values, (e.2.doc room).fault? = none
  plain {room : Nat} {values : τ} (enough : need ≤ room)
    (read : fields.Reads (· ≠ Doc.embeddingKey) room values) : Fits room values

namespace Fields.Lawful

variable {σ τ : Type} {fields : Fields σ τ} {field : Field α} {need : Nat} {Fits : Nat → α → Prop}
  {Others : Nat → τ → Prop}

theorem done : Fields.done.Lawful need fun _ _ => True where
  inRange _ _ he := nomatch he
  returns _ _ _ _ := .ok ()
  whole _ _ _ he := nomatch he
  plain _ _ := trivial

theorem cons (hfield : field.Lawful need Fits) (hothers : fields.Lawful need Others)
    (fresh : field.name ∉ fields.names) :
    (Fields.cons field fields).Lawful need fun room values =>
      Fits room values.1 ∧ Others room values.2 := by
  have habsent : ∀ values room, ∀ e ∈ (fields.write values).map (Json.entryDoc room),
      e.1 ≠ .ok field.name := by
    rintro values room e he heq
    obtain ⟨f, hf, rfl⟩ := List.mem_map.1 he
    obtain hname : f.1 = field.name := Except.ok.inj heq
    exact fresh (hname ▸ name_mem_of_mem_write hf)
  have hreads : ∀ {Allowed room value others},
      (Fields.cons field fields).Reads Allowed room (value, others) →
        ∃ room', field.codec.Reads Allowed room' value := by
    rintro Allowed room value others ⟨hvalue | hvalue, -⟩
    · exact ⟨need, hfield.default hvalue Allowed (Nat.le_refl need)⟩
    · exact ⟨room, hvalue⟩
  constructor
  · rintro Allowed room ⟨value, others⟩ hread
    obtain ⟨room', hvalue⟩ := hreads hread
    have hrest := hothers.inRange hread.2
    simp only [write]
    split_ifs
    · exact hrest
    · exact List.forall_mem_cons.2 ⟨hfield.codec.inRange hvalue, hrest⟩
  · rintro Allowed room ⟨value, others⟩ hread mode room' enough
    obtain ⟨_, hvalue⟩ := hreads hread
    have hrest := hothers.returns hread.2 mode enough
    simp only [write]
    split_ifs with homitted
    · rw [readObject_default (habsent others room') (hfield.omitted homitted)]
      refine (hrest.map fun others => (value, others)).congr ⟨fun h => ⟨?_, h⟩, fun h => h.2⟩
      exact hfield.codec.plain enough (hfield.default (hfield.omitted homitted) _ enough)
    · rw [List.map_cons, Json.entryDoc, readObject_cons (habsent others room')]
      refine ((hfield.codec.returns hvalue mode enough).bind (hrest.bind (.ok (value, others)))).congr ?_
      simp
  · rintro room ⟨value, others⟩ enough ⟨hfits, hrest⟩
    have hwhole := hothers.whole enough hrest
    simp only [write]
    split_ifs
    · exact hwhole
    · exact List.forall_mem_cons.2 ⟨hfield.codec.whole enough hfits, hwhole⟩
  · rintro room ⟨value, others⟩ enough ⟨hvalue, hrest⟩
    refine ⟨?_, hothers.plain enough hrest⟩
    rcases hvalue with hdefault | hvalue
    · exact hfield.codec.plain enough (hfield.default hdefault _ enough)
    · exact hfield.codec.plain enough hvalue

end Fields.Lawful

namespace Codec

variable {σ τ : Type} {fields : Fields σ τ} {need : Nat} {Fits : Nat → τ → Prop} {title : String}
  {make : τ → α} {cut : α → τ}

/-- The values of a record that is read are read from a document, or defaults. -/
theorem record_reads (cut_make : ∀ values, cut (make values) = values) {Allowed : String → Prop}
    {room : Nat} {a : α} (h : (Codec.record title fields make cut).Reads Allowed room a) :
    ∃ room', room = room' + 1 ∧ fields.Reads Allowed room' (cut a) := by
  obtain ⟨mode, doc, hdoc, hread⟩ := h
  have hmap : ∀ {result : Except Problem τ}, result.map make = .ok a → result = .ok (cut a) := by
    intro result hresult
    obtain ⟨values, rfl, rfl⟩ := map_eq_ok.1 hresult
    rw [cut_make]
  cases hdoc with
  | object keys_allowed entries_within =>
    exact ⟨_, rfl, Fields.reads_readObject entries_within (hmap hread)⟩
  | array items_within => exact ⟨_, rfl, Fields.reads_readArray items_within (hmap hread)⟩
  | _ => cases hread

/-- A record is lawful when its fields are. -/
theorem Lawful.record (h : fields.Lawful need Fits) (make_cut : ∀ a, make (cut a) = a)
    (cut_make : ∀ values, cut (make values) = values) :
    (Codec.record title fields make cut).Lawful (need + 1) fun room a => Fits (room - 1) (cut a) where
  inRange hrecord := by
    obtain ⟨room, rfl, hreads⟩ := record_reads cut_make hrecord
    exact Json.inRange_object (h.inRange hreads)
  returns {_ _ a} hrecord mode room' enough := by
    obtain ⟨_, -, hreads⟩ := record_reads cut_make hrecord
    obtain ⟨room', rfl, inside⟩ := Codec.exists_room enough
    have hfields := (h.returns hreads mode inside).map make
    rw [make_cut] at hfields
    show Yields _ ((Codec.record title fields make cut).read mode
      ((Json.object (fields.write (cut a))).doc (room' + 1))) _
    rw [Json.doc_object_succ]
    exact hfields
  whole {room a} enough fits := by
    obtain ⟨room, rfl, inside⟩ := Codec.exists_room enough
    show Doc.fault? ((Json.object (fields.write (cut a))).doc (room + 1)) = none
    rw [Json.doc_object_succ, Doc.fault?,
      Doc.faultOfEntries?_eq_none (h.whole inside fits)]
    rfl
  plain enough hrecord := by
    obtain ⟨room, rfl, hreads⟩ := record_reads cut_make hrecord
    exact h.plain (Nat.le_of_succ_le_succ enough) hreads

end Codec

end Dunning
