import Dunning.Json.Document
import Dunning.Proofs.Json.Spelling

/-!
# Documents of values

The tokens of a value build the document of that value: a container in which no room is left
for it is too deep, and everything else stands as it was. So the text of a value whose
numbers are read as themselves is read as its document, and nothing is left over.
-/
namespace Dunning

/-- A container where there is room for some more in each other. -/
def Doc.nested (room : Nat) (container : Doc) : Doc := if room = 0 then .deep container else container

namespace Json

mutual

/-- The document of a value, where there is room for some containers in each other. -/
def doc (room : Nat) : Json → Doc
  | .null => .null
  | .bool b => .bool b
  | .number n => .number n
  | .string s => .string s
  | .array items => .nested room (.array (docOfItems (room - 1) items) none)
  | .object entries => .nested room (.object (docOfEntries (room - 1) entries) none)

def docOfItems (room : Nat) : List Json → List Doc
  | [] => []
  | j :: rest => doc room j :: docOfItems room rest

def docOfEntries (room : Nat) : List (String × Json) → List Doc.Entry
  | [] => []
  | (k, j) :: rest => (.ok k, doc room j) :: docOfEntries room rest

end

/-- The entry of a document for an entry of a value. -/
def entryDoc (room : Nat) (e : String × Json) : Doc.Entry := (.ok e.1, e.2.doc room)

theorem doc_array (room : Nat) (items : List Json) :
    (array items).doc room = .nested room (.array (items.map (doc (room - 1))) none) := by
  have hitems : docOfItems (room - 1) items = items.map (doc (room - 1)) := by
    induction items with
    | nil => rfl
    | cons j rest ih => rw [docOfItems, List.map_cons, ih]
  rw [doc, hitems]

theorem doc_object (room : Nat) (entries : List (String × Json)) :
    (object entries).doc room = .nested room (.object (entries.map (entryDoc (room - 1))) none) := by
  have hentries : docOfEntries (room - 1) entries = entries.map (entryDoc (room - 1)) := by
    induction entries with
    | nil => rfl
    | cons e rest ih => rw [docOfEntries, List.map_cons, ih]; rfl
  rw [doc, hentries]

@[simp] theorem doc_array_succ (room : Nat) (items : List Json) :
    (array items).doc (room + 1) = .array (items.map (doc room)) none := doc_array (room + 1) items

@[simp] theorem doc_object_succ (room : Nat) (entries : List (String × Json)) :
    (object entries).doc (room + 1) = .object (entries.map (entryDoc room)) none :=
  doc_object (room + 1) entries

end Json

namespace Doc

/-- The room for containers inside those of a stack. -/
def room (stack : List Frame) : Nat := maxDepth - stack.length

theorem room_cons (frame : Frame) (stack : List Frame) : room (frame :: stack) = room stack - 1 := by
  rw [room, room, List.length_cons, Nat.sub_add_eq]

namespace Builder

theorem contained_eq (container : Doc) (stack : List Frame) :
    contained container stack = nested (room stack) container := by
  have hroom : (stack.drop (maxDepth - 1)).isEmpty = true ↔ room stack ≠ 0 := by
    rw [List.isEmpty_iff, List.drop_eq_nil_iff, room, maxDepth]
    omega
  unfold contained nested
  split_ifs with hfits hnone hnone
  · exact absurd hnone (hroom.1 hfits)
  · rfl
  · rfl
  · exact absurd (hroom.2 hnone) hfits

/-- The first item of an array is read like a later one. -/
theorem step_firstItem (j : Json) (stack : List Frame) :
    j.tokens.foldl step (firstItem stack) = j.tokens.foldl step (value (.array [] :: stack)) := by
  cases j <;> rfl

/-- The tokens of a value deliver its document. -/
def Delivers (j : Json) : Prop :=
  ∀ stack, j.tokens.foldl step (value stack) = deliver (j.doc (room stack)) stack

theorem foldl_items {j : Json} {items : List Json} (hj : Delivers j)
    (h : ∀ k ∈ items, Delivers k) (acc : List Doc) (stack : List Frame) :
    (Json.tokensOfItems (j :: items)).foldl step (value (.array acc :: stack)) =
      afterItem (((j :: items).map (Json.doc (room stack - 1))).reverse ++ acc) stack := by
  induction items generalizing j acc with
  | nil => rw [Json.tokensOfItems, hj, room_cons]; rfl
  | cons k rest ih =>
    have hcomma : ∀ acc, step (afterItem acc stack) .comma = value (.array acc :: stack) :=
      fun _ => rfl
    rw [Json.tokensOfItems, List.foldl_append, hj, room_cons, deliver, List.foldl_cons, hcomma,
      ih (h k List.mem_cons_self) fun i hi => h i (List.mem_cons_of_mem k hi)]
    · simp
    · simp

theorem foldl_entries {e : String × Json} {entries : List (String × Json)} (he : Delivers e.2)
    (h : ∀ f ∈ entries, Delivers f.2) (acc : List Entry) (stack : List Frame) :
    (Json.tokensOfEntries (e :: entries)).foldl step (nextKey acc stack) =
      afterEntry (((e :: entries).map (Json.entryDoc (room stack - 1))).reverse ++ acc) stack := by
  have hkey : ∀ acc key ts, (.string (.ok key) :: .colon :: ts : List Json.Token).foldl step
      (nextKey acc stack) = ts.foldl step (value (.object acc (.ok key) :: stack)) :=
    fun _ _ _ => rfl
  induction entries generalizing e acc with
  | nil => rw [Json.tokensOfEntries, hkey, he, room_cons]; rfl
  | cons f rest ih =>
    have hcomma : ∀ acc, step (afterEntry acc stack) .comma = nextKey acc stack := fun _ => rfl
    rw [Json.tokensOfEntries, List.cons_append, List.cons_append, hkey, List.foldl_append, he, room_cons,
      deliver, List.foldl_cons, hcomma,
      ih (h f List.mem_cons_self) fun i hi => h i (List.mem_cons_of_mem f hi)]
    · simp [Json.entryDoc]
    · simp

theorem delivers (j : Json) : Delivers j := by
  induction j with
  | null | bool | number | string => exact fun _ => rfl
  | array items ih =>
    intro stack
    have hopen : step (value stack) .openArray = firstItem stack := rfl
    have hclose : ∀ acc, step (afterItem acc stack) .closeArray =
        deliverContainer (.array acc.reverse none) stack := fun _ => rfl
    rw [Json.tokens, List.cons_append, List.foldl_cons, hopen, List.foldl_append, Json.doc_array,
      ← contained_eq]
    cases items with
    | nil => rfl
    | cons j rest =>
      have hj := ih j List.mem_cons_self
      have hfirst : (Json.tokensOfItems (j :: rest)).foldl step (firstItem stack) =
          (Json.tokensOfItems (j :: rest)).foldl step (value (.array [] :: stack)) := by
        cases rest with
        | nil => exact step_firstItem j stack
        | cons k rest =>
          rw [Json.tokensOfItems, List.foldl_append, List.foldl_append, step_firstItem]
          all_goals simp
      rw [hfirst, foldl_items hj fun k hk => ih k (List.mem_cons_of_mem j hk)]
      simp [hclose, deliverContainer]
  | object entries ih =>
    intro stack
    have hopen : step (value stack) .openObject = firstKey stack := rfl
    have hclose : ∀ acc, step (afterEntry acc stack) .closeObject =
        deliverContainer (.object acc.reverse none) stack := fun _ => rfl
    rw [Json.tokens, List.cons_append, List.foldl_cons, hopen, List.foldl_append, Json.doc_object,
      ← contained_eq]
    cases entries with
    | nil => rfl
    | cons e rest =>
      have he := ih e List.mem_cons_self
      have hfirst : (Json.tokensOfEntries (e :: rest)).foldl step (firstKey stack) =
          (Json.tokensOfEntries (e :: rest)).foldl step (nextKey [] stack) := by
        cases rest <;> rfl
      rw [hfirst, foldl_entries he fun f hf => ih f (List.mem_cons_of_mem e hf)]
      simp [hclose, deliverContainer]

end Builder

/-- Reading a text is building from all its tokens. -/
theorem parse_eq (text : String) : parse text =
    ((Json.LexState.between.tokens text.toList).foldl Builder.step (.value [])).finish := by
  have hscan : ∀ (cs : List Char) (scan : Scan),
      (cs.foldl Scan.step scan).lexer.finish.foldl Builder.step (cs.foldl Scan.step scan).builder =
        (scan.lexer.tokens cs).foldl Builder.step scan.builder := by
    intro cs
    induction cs with
    | nil => exact fun _ => rfl
    | cons c cs ih =>
      intro scan
      rw [List.foldl_cons, ih, Json.LexState.tokens, List.foldl_append]
      rfl
  exact congrArg Builder.finish (hscan text.toList ⟨.between, .value []⟩)

/-- A text is read as the document of the value whose tokens it spells. -/
theorem parse_of_spells {text : String} {j : Json} (h : Json.Spells text.toList j.tokens) :
    parse text = (j.doc maxDepth, true) := by
  have htokens : Json.LexState.between.tokens text.toList = j.tokens ++ [.endOfText] := by
    have hspells := h [] Json.follows_nil
    rwa [List.append_nil] at hspells
  rw [parse_eq, htokens, List.foldl_append, Builder.delivers]
  rfl

/-- The text of a value is read as its document. -/
theorem parse_text {j : Json} (h : ∀ n ∈ j.numbers, Json.Numeral (Json.numberText n).toList n) :
    parse j.text = (j.doc maxDepth, true) := by
  refine parse_of_spells ?_
  rw [Json.text, String.toList_ofList]
  exact Json.spells_chars h

end Doc

end Dunning
