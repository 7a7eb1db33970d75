import Dunning.Json.Printer
import Dunning.Json.Token
import Mathlib.Data.List.Forall2
import Mathlib.Tactic.SplitIfs

/-!
# The spelling of tokens

Compact text spells the tokens of its value: whatever may follow a value in a document, its
text is cut into exactly these tokens, and the rest into its own. Characters of strings are
escaped in such a way that each of them is read back, and a number ends where a value may
end.
-/
namespace Dunning.Json

/-- A property of all values, from that of the items of arrays and of the entries of objects. -/
@[induction_eliminator]
theorem induction {P : Json → Prop} (null : P .null) (bool : ∀ b, P (.bool b))
    (number : ∀ n, P (.number n)) (string : ∀ s, P (.string s))
    (array : ∀ items, (∀ j ∈ items, P j) → P (.array items))
    (object : ∀ entries, (∀ e ∈ entries, P e.2) → P (.object entries)) (j : Json) : P j := by
  refine @Json.rec P (fun items => ∀ j ∈ items, P j) (fun entries => ∀ e ∈ entries, P e.2)
    (fun e => P e.2) null bool number string array object ?_ ?_ ?_ ?_ ?_ j
  · simp
  · intro j items hj hitems k hk
    rcases List.mem_cons.1 hk with rfl | hk
    · exact hj
    · exact hitems k hk
  · simp
  · intro e entries he hentries k hk
    rcases List.mem_cons.1 hk with rfl | hk
    · exact he
    · exact hentries k hk
  · exact fun _ _ hj => hj

/-! ## What is in a value -/

mutual

/-- All numbers in a value. -/
def numbers : Json → List Number
  | .number n => [n]
  | .array items => numbersOfItems items
  | .object entries => numbersOfEntries entries
  | _ => []

def numbersOfItems : List Json → List Number
  | [] => []
  | j :: rest => numbers j ++ numbersOfItems rest

def numbersOfEntries : List (String × Json) → List Number
  | [] => []
  | (_, j) :: rest => numbers j ++ numbersOfEntries rest

end

theorem numbers_array (items : List Json) : (array items).numbers = items.flatMap numbers := by
  rw [numbers]
  induction items with
  | nil => rfl
  | cons j rest ih => rw [numbersOfItems, List.flatMap_cons, ih]

theorem numbers_object (entries : List (String × Json)) :
    (object entries).numbers = entries.flatMap fun e => e.2.numbers := by
  rw [numbers]
  induction entries with
  | nil => rfl
  | cons e rest ih => rw [numbersOfEntries, List.flatMap_cons, ih]

mutual

/-- The tokens of a value. -/
def tokens : Json → List Token
  | .null => [.null]
  | .bool b => [.bool b]
  | .number n => [.number (some n)]
  | .string s => [.string (.ok s)]
  | .array items => .openArray :: tokensOfItems items ++ [.closeArray]
  | .object entries => .openObject :: tokensOfEntries entries ++ [.closeObject]

def tokensOfItems : List Json → List Token
  | [] => []
  | [j] => tokens j
  | j :: rest => tokens j ++ .comma :: tokensOfItems rest

def tokensOfEntries : List (String × Json) → List Token
  | [] => []
  | [(k, j)] => .string (.ok k) :: .colon :: tokens j
  | (k, j) :: rest => .string (.ok k) :: .colon :: tokens j ++ .comma :: tokensOfEntries rest

end

/-! ## Cutting a text -/

/-- All tokens of a text that is read on from a state. -/
def LexState.tokens (state : LexState) : List Char → List Token
  | [] => state.finish
  | c :: cs => (state.step c).2 ++ (state.step c).1.tokens cs

/-- What may stand behind a value. -/
def Follows (rest : List Char) : Prop := ∀ c ∈ rest.head?, c = ',' ∨ c = ']' ∨ c = '}'

/-- Whether a text is cut into some tokens, whatever follows it. -/
def Spells (cs : List Char) (ts : List Token) : Prop :=
  ∀ rest, Follows rest → LexState.between.tokens (cs ++ rest) = ts ++ LexState.between.tokens rest

theorem follows_nil : Follows [] := by simp [Follows]

theorem follows_cons {c : Char} (h : c = ',' ∨ c = ']' ∨ c = '}') (rest : List Char) :
    Follows (c :: rest) := by
  intro d hd
  obtain rfl : c = d := by simpa using hd
  exact h

theorem spells_nil : Spells [] [] := fun _ _ => rfl

/-- A text between two marks. -/
theorem Spells.enclose {cs : List Char} {ts : List Token} (h : Spells cs ts) {a b : Char}
    {s t : Token} (opens : LexState.start a = (.between, [s]))
    (closes : LexState.start b = (.between, [t])) (hb : b = ',' ∨ b = ']' ∨ b = '}') :
    Spells (a :: cs ++ [b]) (s :: ts ++ [t]) := by
  intro rest _
  have hopen : ∀ cs, LexState.between.tokens (a :: cs) = s :: LexState.between.tokens cs := by
    intro cs
    simp [LexState.tokens, LexState.step, opens]
  have hclose : ∀ cs, LexState.between.tokens (b :: cs) = t :: LexState.between.tokens cs := by
    intro cs
    simp [LexState.tokens, LexState.step, closes]
  rw [List.append_assoc, List.cons_append, hopen, List.singleton_append, h _ (follows_cons hb rest),
    hclose]
  simp

/-- Two texts with a comma between them. -/
theorem Spells.append_comma {cs ds : List Char} {ts us : List Token} (h : Spells cs ts)
    (h' : Spells ds us) : Spells (cs ++ ',' :: ds) (ts ++ .comma :: us) := by
  intro rest hrest
  have hcomma : ∀ cs, LexState.between.tokens (',' :: cs) = .comma :: LexState.between.tokens cs :=
    fun _ => rfl
  rw [List.append_assoc, List.cons_append, h _ (follows_cons (.inl rfl) _), hcomma, h' rest hrest]
  simp

/-! ## Strings -/

theorem hexValue_hexDigit : ∀ n < 16, hexValue (hexDigit n) = some n := by decide

/-- An escaped character is read as itself. -/
theorem tokens_escaped (read : List Char) (c : Char) (rest : List Char) :
    (LexState.string ⟨read, none, none⟩).tokens (escaped c ++ rest) =
      (LexState.string ⟨c :: read, none, none⟩).tokens rest := by
  unfold escaped
  split_ifs with hquote hback hb ht hn hf hr hcontrol
  · subst hquote; rfl
  · subst hback; rfl
  · subst hb; rfl
  · subst ht; rfl
  · subst hn; rfl
  · subst hf; rfl
  · subst hr; rfl
  · have hhigh := hexValue_hexDigit (c.toNat / 16) (by omega)
    have hlow := hexValue_hexDigit (c.toNat % 16) (by omega)
    have hcode : c.toNat / 16 * 16 + c.toNat % 16 = c.toNat := by omega
    have hzero : hexValue '0' = some 0 := rfl
    have hplain : (StringDraft.code ⟨read, none, none⟩ c.toNat) = ⟨c :: read, none, none⟩ := by
      have hlowHalf : isLowHalf c.toNat = false := by simp [isLowHalf]; omega
      have hhighHalf : isHighHalf c.toNat = false := by simp [isHighHalf]; omega
      simp [StringDraft.code, hlowHalf, hhighHalf]
    simp [LexState.tokens, LexState.step, hzero, hhigh, hlow, hcode, hplain]
  · simp [LexState.tokens, LexState.step, StringDraft.plain, hquote, hback, hcontrol]

theorem tokens_string (read cs rest : List Char) :
    (LexState.string ⟨read, none, none⟩).tokens (cs.flatMap escaped ++ '"' :: rest) =
      .string (.ok (String.ofList (read.reverse ++ cs))) :: LexState.between.tokens rest := by
  induction cs generalizing read with
  | nil => simp [LexState.tokens, LexState.step, StringDraft.close]
  | cons c cs ih =>
    rw [List.flatMap_cons, List.append_assoc, tokens_escaped, ih]
    simp

/-- A string is cut off whatever follows it. -/
theorem tokens_quoted (s : String) (rest : List Char) :
    LexState.between.tokens (quoted s ++ rest) = .string (.ok s) :: LexState.between.tokens rest := by
  have hopen : ∀ cs, LexState.between.tokens ('"' :: cs) =
      (LexState.string ⟨[], none, none⟩).tokens cs := fun _ => rfl
  rw [quoted, List.append_assoc, List.cons_append, hopen, List.singleton_append, tokens_string]
  simp

theorem Spells.entry {cs : List Char} {ts : List Token} (h : Spells cs ts) (key : String) :
    Spells (quoted key ++ ':' :: cs) (.string (.ok key) :: .colon :: ts) := by
  intro rest hrest
  have hcolon : ∀ cs, LexState.between.tokens (':' :: cs) = .colon :: LexState.between.tokens cs :=
    fun _ => rfl
  rw [List.append_assoc, tokens_quoted, List.cons_append, hcolon, h rest hrest]
  rfl

/-! ## Numbers -/

/-- Whether a text is read to the draft of a complete number with the given value. -/
def Numeral (cs : List Char) (n : Number) : Prop :=
  ∃ draft : NumberDraft, draft.complete = true ∧ draft.literal.value = some n ∧
    ∀ rest, LexState.between.tokens (cs ++ rest) = (LexState.number draft).tokens rest

/-- A complete number ends where a value may end. -/
theorem NumberDraft.step_ended {draft : NumberDraft} (hcomplete : draft.complete = true) {c : Char}
    (h : c = ',' ∨ c = ']' ∨ c = '}') : draft.step c = .ended := by
  obtain ⟨part, negative, whole, fraction, exponentNegative, exponent⟩ := draft
  cases part with
  | sign | point | mark | markSign => cases hcomplete
  | leadingZero | whole | fraction | exponent => rcases h with rfl | rfl | rfl <;> rfl

theorem Numeral.spells {cs : List Char} {n : Number} (h : Numeral cs n) :
    Spells cs [.number (some n)] := by
  obtain ⟨draft, complete, value, hread⟩ := h
  intro rest hrest
  rw [hread rest]
  cases rest with
  | nil => simp [LexState.tokens, LexState.finish, complete, value]
  | cons c rest =>
    have hended := NumberDraft.step_ended complete (hrest c rfl)
    simp [LexState.tokens, LexState.step, hended, value]

/-! ## Values -/

theorem spells_items {items : List Json} (h : ∀ j ∈ items, Spells j.chars j.tokens) :
    Spells (charsItems items) (tokensOfItems items) := by
  induction items with
  | nil => exact spells_nil
  | cons j rest ih =>
    have hj := h j List.mem_cons_self
    cases rest with
    | nil => exact hj
    | cons k rest => exact hj.append_comma (ih fun i hi => h i (List.mem_cons_of_mem j hi))

/-- Whether the text of an entry spells the tokens of another one. -/
def SpellsEntry (e e' : String × Json) : Prop := e.1 = e'.1 ∧ Spells e.2.chars e'.2.tokens

theorem spells_entries {entries entries' : List (String × Json)}
    (h : List.Forall₂ SpellsEntry entries entries') :
    Spells (charsEntries entries) (tokensOfEntries entries') := by
  induction h with
  | nil => exact spells_nil
  | @cons e e' rest rest' he hrest ih =>
    obtain ⟨key, j⟩ := e
    obtain ⟨key', j'⟩ := e'
    obtain ⟨rfl, hj⟩ : key = key' ∧ Spells j.chars j'.tokens := he
    cases hrest with
    | nil => exact hj.entry key
    | cons hf hrest => exact (hj.entry key).append_comma ih

theorem spells_object {entries entries' : List (String × Json)}
    (h : List.Forall₂ SpellsEntry entries entries') :
    Spells (object entries).chars (object entries').tokens :=
  (spells_entries h).enclose rfl rfl (by decide)

/-- Compact text spells the tokens of its value, when every number in it is read as itself. -/
theorem spells_chars {j : Json} (h : ∀ n ∈ j.numbers, Numeral (numberText n).toList n) :
    Spells j.chars j.tokens := by
  induction j with
  | null => intro rest _; rfl
  | bool b => intro rest _; cases b <;> rfl
  | number n => exact (h n (by simp [numbers])).spells
  | string s => exact fun rest _ => tokens_quoted s rest
  | array items ih =>
    rw [numbers_array] at h
    refine (spells_items fun j hj => ih j hj fun n hn => h n ?_).enclose rfl rfl (by decide)
    exact List.mem_flatMap.2 ⟨j, hj, hn⟩
  | object entries ih =>
    rw [numbers_object] at h
    refine spells_object (List.forall₂_same.2 fun e he => ⟨rfl, ih e he fun n hn => h n ?_⟩)
    exact List.mem_flatMap.2 ⟨e, he, hn⟩

end Dunning.Json
