import Dunning.Record.Fields
import Dunning.Proofs.Record.Free
import Dunning.Proofs.Time.ReadBack

/-!
# Lawful codecs

A codec is lawful when every value that it reads from some document is written as a document
that it reads as this value again, as long as the value fits into the room that there is, and
refuses when it does not. Codecs of lists, of optional values and of records are lawful when
those of their parts are, and fit when their parts do.
-/
namespace Dunning

/-- Whether all integers in a value are of 64 bits. -/
def Json.InRange (j : Json) : Prop := ∀ n ∈ j.numbers, n.InRange

/-- Whether all floats in a value are read back from their texts. -/
def Json.FloatsReadBack (j : Json) : Prop := ∀ x, Number.float x ∈ j.numbers → x.ReadsBack

theorem Json.inRange_array {items : List Json} (h : ∀ j ∈ items, j.InRange) :
    (Json.array items).InRange := by
  intro n hn
  rw [Json.numbers_array] at hn
  obtain ⟨j, hj, hn⟩ := List.mem_flatMap.1 hn
  exact h j hj n hn

theorem Json.inRange_object {entries : List (String × Json)} (h : ∀ e ∈ entries, e.2.InRange) :
    (Json.object entries).InRange := by
  intro n hn
  rw [Json.numbers_object] at hn
  obtain ⟨e, he, hn⟩ := List.mem_flatMap.1 hn
  exact h e he n hn

theorem Json.Settled.inRange {j : Json} (h : j.Settled) : j.InRange := by
  induction h with
  | null | bool | string => exact fun _ hn => nomatch hn
  | number inRange =>
    intro n hn
    obtain rfl := List.mem_singleton.1 hn
    exact inRange
  | array _ ih => exact Json.inRange_array ih
  | empty => exact fun _ hn => nomatch hn
  | object _ _ _ ih => exact Json.inRange_object ih

/-- The text of a value with such numbers is read as its document. -/
theorem Json.parse_text {j : Json} (inRange : j.InRange) (floats : j.FloatsReadBack) :
    Doc.parse j.text = (j.doc Doc.maxDepth, true) := by
  refine Doc.parse_text fun n hn => Json.numeral (inRange n hn) ?_
  rintro x rfl
  exact floats x hn

namespace Codec

variable {α : Type}

theorem parse_text (codec : Codec α) {j : Json} (inRange : j.InRange) (floats : j.FloatsReadBack) :
    codec.parse j.text = codec.read .direct (j.doc Doc.maxDepth) := by
  unfold parse
  rw [Json.parse_text inRange floats]
  exact bind_pure _

/-- The text of a value without numbers is read as the value is. -/
theorem parse_text_of_numberless (codec : Codec α) {j : Json} (numberless : j.numbers = []) :
    codec.parse j.text = codec.read .direct (j.doc Doc.maxDepth) :=
  codec.parse_text (fun n hn => by simp [numberless] at hn) fun x hx => by simp [numberless] at hx

/-- Where one container more has room, there is room inside it. -/
theorem exists_room {need room : Nat} (h : need + 1 ≤ room) :
    ∃ inside, room = inside + 1 ∧ need ≤ inside :=
  ⟨room - 1, by omega, by omega⟩

/-- Whether a value is what is read from some document with so much room. -/
def Reads (codec : Codec α) (Allowed : String → Prop) (room : Nat) (a : α) : Prop :=
  ∃ mode doc, doc.Within Allowed room ∧ codec.read mode doc = .ok a

/-- What is promised of the values that a codec reads, where at least `need` containers have room in
each other. What comes from a document without embedded texts fits wherever the document did. -/
structure Lawful (codec : Codec α) (need : Nat) (Fits : Nat → α → Prop) : Prop where
  inRange {Allowed : String → Prop} {room : Nat} {a : α} (read : codec.Reads Allowed room a) :
    (codec.write a).InRange
  returns {Allowed : String → Prop} {room : Nat} {a : α} (read : codec.Reads Allowed room a)
    (mode : Reading) {room' : Nat} (enough : need ≤ room') :
    Yields (Fits room' a) (codec.read mode ((codec.write a).doc room')) a
  whole {room : Nat} {a : α} (enough : need ≤ room) (fits : Fits room a) :
    ((codec.write a).doc room).fault? = none
  plain {room : Nat} {a : α} (enough : need ≤ room)
    (read : codec.Reads (· ≠ Doc.embeddingKey) room a) : Fits room a

namespace Lawful

variable {codec : Codec α} {need : Nat} {Fits Fits' : Nat → α → Prop}

theorem congr (h : codec.Lawful need Fits) (same : ∀ room a, Fits room a ↔ Fits' room a) :
    codec.Lawful need Fits' := by
  obtain rfl : Fits = Fits' := funext fun room => funext fun a => propext (same room a)
  exact h

/-- A codec whose values fit everywhere. -/
theorem always
    (inRange : ∀ {Allowed room a}, codec.Reads Allowed room a → (codec.write a).InRange)
    (returns : ∀ {Allowed room a}, codec.Reads Allowed room a → ∀ mode room',
      codec.read mode ((codec.write a).doc room') = .ok a)
    (whole : ∀ room a, ((codec.write a).doc room).fault? = none) :
    codec.Lawful need fun _ _ => True where
  inRange := inRange
  returns read mode room' _ := by
    rw [returns read mode room']
    exact .ok _
  whole _ _ := whole _ _
  plain _ _ := trivial

/-! ## Scalars -/

theorem string : Codec.string.Lawful need fun _ _ => True :=
  always (fun _ _ hn => nomatch hn) (fun _ _ _ => rfl) fun _ _ => rfl

theorem float : Codec.float.Lawful need fun _ _ => True := by
  refine always (fun _ n hn => ?_) (fun _ _ _ => rfl) fun _ _ => rfl
  obtain rfl := List.mem_singleton.1 hn
  trivial

theorem integer_bounds {low high : Int} {wanted : String} {mode : Reading} {doc : Doc} {i : Int}
    (h : (Codec.integer low high wanted).read mode doc = .ok i) : low ≤ i ∧ i ≤ high := by
  simp only [Codec.integer] at h
  split at h
  · split_ifs at h with hbounds
    cases h
    exact hbounds
  · cases h

theorem integer {low high : Int} (hlow : -9223372036854775808 ≤ low)
    (hhigh : high ≤ 18446744073709551615) (wanted : String) :
    (Codec.integer low high wanted).Lawful need fun _ _ => True := by
  refine always ?_ ?_ fun _ _ => rfl
  · rintro Allowed room i ⟨mode, doc, -, hread⟩ n hn
    obtain ⟨hl, hh⟩ := integer_bounds hread
    obtain rfl := List.mem_singleton.1 hn
    exact ⟨Int.le_trans hlow hl, Int.le_trans hh hhigh⟩
  · rintro Allowed room i ⟨mode, doc, -, hread⟩ mode' room'
    exact if_pos (integer_bounds hread)

theorem natural {high : Nat} (hhigh : high ≤ 18446744073709551615) (wanted : String) :
    (Codec.natural high wanted).Lawful need fun _ _ => True := by
  have hbounds : ∀ {Allowed room n}, (Codec.natural high wanted).Reads Allowed room n → n ≤ high := by
    rintro Allowed room n ⟨mode, doc, -, hread⟩
    obtain ⟨i, hinteger, rfl⟩ := map_eq_ok.1 hread
    obtain ⟨hl, hh⟩ := integer_bounds hinteger
    omega
  refine always ?_ ?_ fun _ _ => rfl
  · intro Allowed room n hread m hm
    have := hbounds hread
    obtain rfl := List.mem_singleton.1 hm
    exact ⟨by omega, by omega⟩
  · intro Allowed room n hread mode room'
    have hn : (0 : Int) ≤ n ∧ (n : Int) ≤ high := ⟨by omega, by exact_mod_cast hbounds hread⟩
    show ((Codec.integer 0 high wanted).read mode (.number (.int n))).map Int.toNat = .ok n
    simp [Codec.integer, hn, Except.map]

theorem timestamp : Codec.timestamp.Lawful need fun _ _ => True := by
  refine always ?_ ?_ fun _ _ => rfl
  · intro Allowed room t _ n hn
    have hwrite : Codec.timestamp.write t = .string t.text := rfl
    simp [hwrite, Json.numbers] at hn
  · intro Allowed room t _ mode room'
    have hread : ∀ s : String, Codec.timestamp.read mode (.string s) =
        (Timestamp.read s.toList).mapError .badTimestamp := fun _ => rfl
    have hdoc : (Codec.timestamp.write t).doc room' = .string t.text := rfl
    rw [hdoc, hread, Timestamp.read_text]
    rfl

theorem choice {names : List (String × α)} {nameOf : α → String}
    (named : ∀ a, names.lookup (nameOf a) = some a) :
    (Codec.choice names nameOf).Lawful need fun _ _ => True := by
  refine always (fun _ _ hn => nomatch hn) (fun {_ _ a} _ mode room => ?_) fun _ _ => rfl
  have hchoose : choose names (nameOf a) = .ok a := by rw [choose, named]
  cases mode <;> exact hchoose

theorem free : Codec.free.Lawful need fun room j => j.Restorable room where
  inRange := by
    rintro Allowed room j ⟨mode, doc, hdoc, hread⟩
    exact (Doc.free_settled hdoc hread).inRange
  returns := by
    rintro Allowed room j ⟨mode, doc, hdoc, hread⟩ mode' room' -
    exact Doc.freeWith_doc (Doc.free_settled hdoc hread) room'
  whole _ fits := Doc.fault?_doc fits
  plain := by
    rintro room j - ⟨mode, doc, hdoc, hread⟩
    exact Doc.restorable_of_freeWith hdoc hread

/-! ## Lists and optional values -/

theorem nullable (h : codec.Lawful need Fits) (nonnull : ∀ a, codec.write a ≠ .null) :
    codec.nullable.Lawful need fun room o => ∀ a ∈ o, Fits room a := by
  have hsome : ∀ {Allowed room a}, codec.nullable.Reads Allowed room (some a) →
      codec.Reads Allowed room a := by
    rintro Allowed room a ⟨mode, doc, hdoc, hread⟩
    refine ⟨mode, doc, hdoc, ?_⟩
    simp only [Codec.nullable] at hread
    split at hread
    · cases hread
    · obtain ⟨_, hvalue, ⟨⟩⟩ := map_eq_ok.1 hread
      exact hvalue
  have hread : ∀ mode room a, codec.nullable.read mode ((codec.write a).doc room) =
      (codec.read mode ((codec.write a).doc room)).map some := by
    intro mode room a
    have hwrite := nonnull a
    cases hvalue : codec.write a with
    | null => exact absurd hvalue hwrite
    | bool | number | string => rfl
    | array | object =>
      cases room <;> rfl
  constructor
  · intro Allowed room o hreads
    cases o with
    | none => exact fun _ hn => nomatch hn
    | some a => exact h.inRange (hsome hreads)
  · intro Allowed room o hreads mode room' enough
    cases o with
    | none => exact (Yields.ok none).congr (by simp)
    | some a =>
      have hyields := (h.returns (hsome hreads) mode enough).map some
      rw [← hread] at hyields
      exact hyields.congr (by simp)
  · intro room o enough fits
    cases o with
    | none => rfl
    | some a => exact h.whole enough (fits a rfl)
  · intro room o enough hreads a ha
    obtain rfl : o = some a := ha
    exact h.plain enough (hsome hreads)

/-- What is read as a list is read from an array, item by item. -/
theorem list_reads {Allowed : String → Prop} {room : Nat} {values : List α}
    (h : codec.list.Reads Allowed room values) :
    ∃ room', room = room' + 1 ∧ ∀ v ∈ values, codec.Reads Allowed room' v := by
  obtain ⟨mode, doc, hdoc, hread⟩ := h
  cases hdoc with
  | @array room items unclosed items_within =>
    obtain ⟨vs, hvs, hread⟩ := bind_eq_ok.1 hread
    obtain ⟨_, _, hread⟩ := bind_eq_ok.1 hread
    cases hread
    refine ⟨room, rfl, fun v hv => ?_⟩
    obtain ⟨d, hd, hv⟩ := readItems_eq_ok hvs v hv
    exact ⟨mode, d, items_within d hd, hv⟩
  | _ => cases hread

theorem list_reads_nil (codec : Codec α) (Allowed : String → Prop) {room : Nat} (h : need + 1 ≤ room) :
    codec.list.Reads Allowed room [] := by
  obtain ⟨room, rfl, -⟩ := exists_room h
  exact ⟨.direct, .array [] none, .array (by simp), rfl⟩

theorem list (h : codec.Lawful need Fits) :
    codec.list.Lawful (need + 1) fun room values => ∀ v ∈ values, Fits (room - 1) v where
  inRange hlist := by
    obtain ⟨room, rfl, hreads⟩ := list_reads hlist
    refine Json.inRange_array fun j hj => ?_
    obtain ⟨v, hv, rfl⟩ := List.mem_map.1 hj
    exact h.inRange (hreads v hv)
  returns {_ _ values} hlist mode room' enough := by
    obtain ⟨_, -, hreads⟩ := list_reads hlist
    obtain ⟨room', rfl, inside⟩ := exists_room enough
    have hitems := readItems_map fun v hv => h.returns (hreads v hv) mode inside
    show Yields _ (codec.list.read mode ((Json.array (values.map codec.write)).doc (room' + 1))) _
    rw [Json.doc_array_succ, List.map_map]
    refine Yields.congr (P := (∀ v ∈ values, Fits room' v) ∧ True) ?_ (by simp)
    exact hitems.bind (.ok values)
  whole {room values} enough fits := by
    obtain ⟨room, rfl, inside⟩ := exists_room enough
    show (Doc.fault? ((Json.array (values.map codec.write)).doc (room + 1))) = none
    rw [Json.doc_array_succ, Doc.fault?, Doc.faultOfItems?_eq_none]
    · rfl
    · intro d hd
      obtain ⟨j, hj, rfl⟩ := List.mem_map.1 hd
      obtain ⟨v, hv, rfl⟩ := List.mem_map.1 hj
      exact h.whole inside (fits v hv)
  plain enough hlist v hv := by
    obtain ⟨room, rfl, hreads⟩ := list_reads hlist
    exact h.plain (Nat.le_of_succ_le_succ enough) (hreads v hv)

/-! ## Texts -/

/-- A value that a text is accepted as is read back from its own text as long as it fits. -/
theorem parse_own_text (h : codec.Lawful need Fits) (enough : need ≤ Doc.maxDepth) {text : String} {a : α}
    (accepted : codec.parse text = .ok a) (floats : (codec.write a).FloatsReadBack) :
    Yields (Fits Doc.maxDepth a) (codec.parse (codec.text a)) a := by
  have hreads : codec.Reads (fun _ => True) Doc.maxDepth a :=
    ⟨.direct, _, Doc.parse_sound text, (parse_eq_ok_iff.1 accepted).2⟩
  rw [Codec.text, Codec.parse_text codec (h.inRange hreads) floats]
  exact h.returns hreads .direct enough

/-- What a text without embedded texts is accepted as fits. -/
theorem fits_of_parse (h : codec.Lawful need Fits) (enough : need ≤ Doc.maxDepth) {text : String} {a : α}
    (accepted : codec.parse text = .ok a) (plain : Doc.embeddingKey ∉ (Doc.parse text).1.keys) :
    Fits Doc.maxDepth a := by
  have hwithin : (Doc.parse text).1.Within (· ≠ Doc.embeddingKey) Doc.maxDepth :=
    (Doc.parse_sound text).keys fun key hkey heq => plain (heq ▸ hkey)
  exact h.plain enough ⟨.direct, _, hwithin, (parse_eq_ok_iff.1 accepted).2⟩

end Lawful

end Codec

end Dunning
