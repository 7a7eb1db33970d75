import Dunning.Proofs.Json.Numeral

/-!
# What documents hold

Whatever a text is, the document that it is read as holds only integers of 64 bits, and
nests no more containers than there is room for, those aside that it marks as too deep.
-/
namespace Dunning

namespace Doc

/-- Whether a document holds integers of 64 bits only, keys that are allowed only, and no more
containers in each other than there is room for. What is too deep counts for nothing. -/
inductive Within (Allowed : String → Prop) : Nat → Doc → Prop
  | null {room : Nat} : Within Allowed room .null
  | bool {room : Nat} {b : Bool} : Within Allowed room (.bool b)
  | number {room : Nat} {n : Number} (inRange : n.InRange) : Within Allowed room (.number n)
  | string {room : Nat} {s : String} : Within Allowed room (.string s)
  | array {room : Nat} {items : List Doc} {unclosed : Option Json.Fault}
      (items_within : ∀ d ∈ items, Within Allowed room d) :
      Within Allowed (room + 1) (.array items unclosed)
  | object {room : Nat} {entries : List Entry} {unclosed : Option Json.Fault}
      (keys_allowed : ∀ e ∈ entries, ∀ key, e.1 = .ok key → Allowed key)
      (entries_within : ∀ e ∈ entries, Within Allowed room e.2) :
      Within Allowed (room + 1) (.object entries unclosed)
  | deep {room : Nat} {container : Doc} : Within Allowed room (.deep container)
  | flaw {room : Nat} {fault : Json.Fault} : Within Allowed room (.flaw fault)

mutual

/-- All keys in a document. -/
def keys : Doc → List String
  | .array items _ => keysOfItems items
  | .object entries _ => keysOfEntries entries
  | .deep doc => keys doc
  | _ => []

def keysOfItems : List Doc → List String
  | [] => []
  | d :: rest => keys d ++ keysOfItems rest

def keysOfEntries : List Entry → List String
  | [] => []
  | (.ok key, d) :: rest => key :: keys d ++ keysOfEntries rest
  | (.error _, d) :: rest => keys d ++ keysOfEntries rest

end

theorem mem_keysOfItems {items : List Doc} {d : Doc} (h : d ∈ items) {key : String}
    (hkey : key ∈ d.keys) : key ∈ keysOfItems items := by
  induction items with
  | nil => cases h
  | cons d' rest ih =>
    rw [keysOfItems, List.mem_append]
    rcases List.mem_cons.1 h with rfl | h
    · exact .inl hkey
    · exact .inr (ih h)

theorem mem_keysOfEntries {entries : List Entry} {e : Entry} (h : e ∈ entries) {key : String}
    (hkey : e.1 = .ok key ∨ key ∈ e.2.keys) : key ∈ keysOfEntries entries := by
  induction entries with
  | nil => cases h
  | cons e' rest ih =>
    obtain ⟨name, d⟩ := e'
    rcases List.mem_cons.1 h with rfl | h
    · cases name <;> rcases hkey with hkey | hkey <;> simp_all [keysOfEntries]
    · have hrest := ih h
      cases name <;> simp [keysOfEntries, hrest]

/-- The keys of a document are those that are allowed when they are. -/
theorem Within.keys {Allowed : String → Prop} {room : Nat} {doc : Doc}
    (h : doc.Within (fun _ => True) room) (allowed : ∀ key ∈ doc.keys, Allowed key) :
    doc.Within Allowed room := by
  induction h with
  | null => exact .null
  | bool => exact .bool
  | number inRange => exact .number inRange
  | string => exact .string
  | array _ ih => exact .array fun d hd => ih d hd fun key hkey => allowed key (mem_keysOfItems hd hkey)
  | object _ _ ih =>
    exact .object (fun e he key hkey => allowed key (mem_keysOfEntries he (.inl hkey)))
      fun e he => ih e he fun key hkey => allowed key (mem_keysOfEntries he (.inr hkey))
  | deep => exact .deep
  | flaw => exact .flaw

end Doc

/-! ## Tokens -/

namespace Json

/-- A number of a token is in range. -/
def Token.Sound : Token → Prop
  | .number (some n) => n.InRange
  | _ => True

/-- The token of a word is sound. -/
def LexState.Sound : LexState → Prop
  | .word _ _ token => token.Sound
  | _ => True

theorem gather_le {digits : List Nat} {s : Nat} (h : s ≤ NumberLiteral.significandMax) :
    (NumberLiteral.gather s digits).1 ≤ NumberLiteral.significandMax := by
  induction digits generalizing s with
  | nil => exact h
  | cons d ds ih =>
    rw [NumberLiteral.gather]
    split_ifs with hlarge
    · exact h
    · exact ih (Nat.not_lt.1 hlarge)

theorem value_inRange {l : NumberLiteral} {n : Number} (h : l.value = some n) : n.InRange := by
  have hgather : (NumberLiteral.gather 0 l.whole).1 ≤ 18446744073709551615 := gather_le (Nat.zero_le _)
  have hfloat : ∀ {x : Option Binary64}, x.map Number.float = some n → n.InRange := by
    intro x hx
    obtain ⟨y, -, rfl⟩ := Option.map_eq_some_iff.1 hx
    trivial
  simp only [NumberLiteral.value] at h
  split_ifs at h with hwhole hpositive hnegative
  · cases h
    exact ⟨by omega, by omega⟩
  · cases h
    exact ⟨by omega, by omega⟩
  · exact hfloat h
  · exact hfloat h

theorem sound_number (l : NumberLiteral) : (Token.number l.value).Sound := by
  cases h : l.value with
  | none => trivial
  | some n => exact value_inRange h

/-- The next state and the finished tokens are sound. -/
def Advance (next : LexState × List Token) : Prop := next.1.Sound ∧ ∀ t ∈ next.2, t.Sound

theorem Advance.quiet {state : LexState} (h : state.Sound) : Advance (state, []) :=
  ⟨h, fun _ ht => nomatch ht⟩

theorem Advance.single {state : LexState} {t : Token} (h : state.Sound) (ht : t.Sound) :
    Advance (state, [t]) := ⟨h, by simpa using ht⟩

theorem Advance.ite {p : Prop} [Decidable p] {a b : LexState × List Token} (ha : Advance a)
    (hb : Advance b) : Advance (if p then a else b) := by
  split
  · exact ha
  · exact hb

theorem Advance.breakString (draft : StringDraft) (fault : Fault) :
    Advance (LexState.breakString draft fault) :=
  ⟨trivial, by simp [LexState.breakString, StringDraft.broken, Token.Sound]⟩

theorem Advance.spoil (draft : StringDraft) (missing : Nat) (c : Char) :
    Advance (LexState.spoil draft missing c) := .ite (.breakString draft _) (.quiet trivial)

theorem Advance.start (c : Char) : Advance (LexState.start c) :=
  .ite (.quiet trivial) <| .ite (.single trivial trivial) <| .ite (.single trivial trivial) <|
    .ite (.single trivial trivial) <| .ite (.single trivial trivial) <|
    .ite (.single trivial trivial) <| .ite (.single trivial trivial) <| .ite (.quiet trivial) <|
    .ite (.quiet trivial) <| .ite (.quiet trivial) <| .ite (.quiet trivial) <|
    .ite (.quiet trivial) (.single trivial trivial)

theorem Advance.step {state : LexState} (h : state.Sound) (c : Char) : Advance (state.step c) := by
  cases state with
  | stopped => exact .quiet trivial
  | between => exact .start c
  | word next rest token =>
    cases rest with
    | nil => exact .ite (.single trivial h) (.single trivial trivial)
    | cons => exact .ite (.quiet h) (.single trivial trivial)
  | number draft =>
    obtain ⟨hstart, htokens⟩ := Advance.start c
    rw [LexState.step]
    split
    · exact .quiet trivial
    · exact .single trivial trivial
    · exact ⟨hstart, List.forall_mem_cons.2 ⟨sound_number _, htokens⟩⟩
  | string draft =>
    exact .ite (.single trivial trivial) <| .ite (.quiet trivial) <|
      .ite (.breakString draft _) (.quiet trivial)
  | escape draft =>
    refine .ite (.quiet trivial) ?_
    split
    · exact .quiet trivial
    · exact .breakString draft _
  | hex draft value missing =>
    rw [LexState.step]
    split
    · exact .spoil draft missing c
    · exact .ite (.quiet trivial) (.quiet trivial)
  | badHex draft missing => exact .spoil draft missing c

theorem finish_sound (state : LexState) : ∀ t ∈ state.finish, t.Sound := by
  cases state with
  | number draft =>
    rw [LexState.finish]
    split
    · exact List.forall_mem_cons.2 ⟨sound_number _, by simp [Token.Sound]⟩
    · simp [Token.Sound]
  | _ => simp [LexState.finish, Token.Sound, StringDraft.broken]

/-- All tokens of a text are sound. -/
theorem tokens_sound {state : LexState} (h : state.Sound) (cs : List Char) :
    ∀ t ∈ state.tokens cs, t.Sound := by
  induction cs generalizing state with
  | nil => exact finish_sound state
  | cons c cs ih =>
    obtain ⟨hnext, htokens⟩ := Advance.step h c
    exact List.forall_mem_append.2 ⟨htokens, ih hnext⟩

end Json

/-! ## Builders -/

namespace Doc

/-- Whether a document holds what any text may hold, in the room that there is. -/
abbrev Sound (room : Nat) (doc : Doc) : Prop := doc.Within (fun _ => True) room

/-- What is in a container has the room that is left in it. -/
def Frame.Sound (room : Nat) : Frame → Prop
  | .array items => ∀ d ∈ items, d.Sound room
  | .object entries _ => ∀ e ∈ entries, e.2.Sound room

def StackSound : List Frame → Prop
  | [] => True
  | frame :: stack => frame.Sound (room stack - 1) ∧ StackSound stack

namespace Builder

/-- Everything that has been built has the room that there is at its place. -/
def Sound : Builder → Prop
  | value stack | firstItem stack | firstKey stack => StackSound stack
  | afterItem items stack => (∀ d ∈ items, d.Sound (room stack - 1)) ∧ StackSound stack
  | nextKey entries stack | afterKey entries _ stack | afterEntry entries stack =>
      (∀ e ∈ entries, e.2.Sound (room stack - 1)) ∧ StackSound stack
  | complete doc | trailing doc | broken doc => doc.Sound maxDepth

theorem nested_array_sound {room : Nat} {items : List Doc} {unclosed : Option Json.Fault}
    (h : ∀ d ∈ items, d.Sound (room - 1)) : (nested room (.array items unclosed)).Sound room := by
  cases room with
  | zero => exact .deep
  | succ room => exact .array h

theorem nested_object_sound {room : Nat} {entries : List Entry} {unclosed : Option Json.Fault}
    (h : ∀ e ∈ entries, e.2.Sound (room - 1)) : (nested room (.object entries unclosed)).Sound room := by
  cases room with
  | zero => exact .deep
  | succ room => exact .object (fun _ _ _ _ => trivial) h

theorem deliver_sound {doc : Doc} {stack : List Frame} (h : doc.Sound (room stack))
    (hstack : StackSound stack) : (deliver doc stack).Sound := by
  cases stack with
  | nil => exact h
  | cons frame stack =>
    obtain ⟨hframe, hstack⟩ := hstack
    rw [room_cons] at h
    cases frame with
    | array items => exact ⟨List.forall_mem_cons.2 ⟨h, hframe⟩, hstack⟩
    | object entries key => exact ⟨List.forall_mem_cons.2 ⟨h, hframe⟩, hstack⟩

theorem abandon_sound (fault : Json.Fault) {doc : Doc} {stack : List Frame}
    (h : doc.Sound (room stack)) (hstack : StackSound stack) :
    (abandon fault doc stack).Sound := by
  induction stack generalizing doc with
  | nil => exact h
  | cons frame stack ih =>
    obtain ⟨hframe, hstack⟩ := hstack
    rw [room_cons] at h
    cases frame with
    | array items =>
      rw [abandon, contained_eq]
      refine ih (nested_array_sound fun d hd => ?_) hstack
      rcases List.mem_cons.1 (List.mem_reverse.1 hd) with rfl | hd
      · exact h
      · exact hframe d hd
    | object entries key =>
      rw [abandon, contained_eq]
      refine ih (nested_object_sound fun e he => ?_) hstack
      rcases List.mem_cons.1 (List.mem_reverse.1 he) with rfl | he
      · exact h
      · exact hframe e he

/-- What closes an array, or leaves it unclosed. -/
theorem array_sound {items : List Doc} {stack : List Frame}
    (h : ∀ d ∈ items, d.Sound (room stack - 1)) (unclosed : Option Json.Fault) :
    (contained (.array items.reverse unclosed) stack).Sound (room stack) := by
  rw [contained_eq]
  exact nested_array_sound fun d hd => h d (List.mem_reverse.1 hd)

theorem object_sound {entries : List Entry} {stack : List Frame}
    (h : ∀ e ∈ entries, e.2.Sound (room stack - 1)) (unclosed : Option Json.Fault) :
    (contained (.object entries.reverse unclosed) stack).Sound (room stack) := by
  rw [contained_eq]
  exact nested_object_sound fun e he => h e (List.mem_reverse.1 he)

theorem startValue_sound {stack : List Frame} (hstack : StackSound stack)
    (fault : Json.Token → Json.Fault) {token : Json.Token} (htoken : token.Sound) :
    (startValue stack fault token).Sound := by
  unfold startValue
  split
  · exact deliver_sound .null hstack
  · exact deliver_sound .bool hstack
  · exact deliver_sound (.number htoken) hstack
  · exact deliver_sound .flaw hstack
  · exact deliver_sound .string hstack
  · exact deliver_sound .flaw hstack
  · exact hstack
  · exact hstack
  · exact abandon_sound _ .flaw hstack

/-- A sound token keeps what is built sound. -/
theorem step_sound {b : Builder} (h : b.Sound) {token : Json.Token} (htoken : token.Sound) :
    (b.step token).Sound := by
  cases b with
  | value stack => exact startValue_sound h _ htoken
  | firstItem stack =>
    simp only [step]
    have hempty := array_sound (List.forall_mem_nil fun d : Doc => d.Sound (room stack - 1))
    split
    · exact deliver_sound (hempty none) h
    · exact abandon_sound _ (hempty _) h
    · have hstack : StackSound (.array [] :: stack) := ⟨by simp [Frame.Sound], h⟩
      exact startValue_sound hstack _ htoken
  | afterItem items stack =>
    obtain ⟨hitems, hstack⟩ := h
    simp only [step]
    split
    · exact ⟨hitems, hstack⟩
    · exact deliver_sound (array_sound hitems none) hstack
    · exact abandon_sound _ (array_sound hitems _) hstack
    · exact abandon_sound _ (array_sound hitems _) hstack
  | firstKey stack =>
    simp only [step]
    have hempty := object_sound (List.forall_mem_nil fun e : Entry => e.2.Sound (room stack - 1))
    split
    · exact ⟨by simp, h⟩
    · exact deliver_sound (hempty none) h
    · exact abandon_sound _ (hempty _) h
    · exact abandon_sound _ (hempty _) h
  | nextKey entries stack =>
    obtain ⟨hentries, hstack⟩ := h
    simp only [step]
    split
    · exact ⟨hentries, hstack⟩
    all_goals exact abandon_sound _ (object_sound hentries _) hstack
  | afterKey entries key stack =>
    obtain ⟨hentries, hstack⟩ := h
    simp only [step]
    split
    · exact ⟨hentries, hstack⟩
    all_goals exact abandon_sound _ .flaw ⟨hentries, hstack⟩
  | afterEntry entries stack =>
    obtain ⟨hentries, hstack⟩ := h
    simp only [step]
    split
    · exact ⟨hentries, hstack⟩
    · exact deliver_sound (object_sound hentries none) hstack
    all_goals exact abandon_sound _ (object_sound hentries _) hstack
  | complete doc =>
    simp only [step]
    split <;> exact h
  | trailing doc | broken doc => exact h

theorem foldl_sound {b : Builder} (h : b.Sound) {tokens : List Json.Token}
    (htokens : ∀ t ∈ tokens, t.Sound) : (tokens.foldl step b).Sound := by
  induction tokens generalizing b with
  | nil => exact h
  | cons t tokens ih =>
    exact ih (step_sound h (htokens t List.mem_cons_self)) fun u hu =>
      htokens u (List.mem_cons_of_mem t hu)

theorem finish_sound {b : Builder} (h : b.Sound) : b.finish.1.Sound maxDepth := by
  cases b with
  | complete | trailing | broken => exact h
  | _ => exact .flaw

end Builder

/-- Whatever a text is, its document is sound. -/
theorem parse_sound (text : String) : (parse text).1.Sound maxDepth := by
  rw [parse_eq]
  have hlexer : Json.LexState.between.Sound := trivial
  have hbuilder : (Builder.value []).Sound := trivial
  exact Builder.finish_sound (Builder.foldl_sound hbuilder (Json.tokens_sound hlexer text.toList))

end Doc

end Dunning
